import CodeMetrics.Node.Literal

/-!
# `CodeMetrics.Node.Name`: names of functions, classes and parameters

A node has a static name if it is an identifier, a private name, `this`, a literal key, or
a chain of members that are read without brackets. A literal names a key but never the
owner in a chain. A function or class without a name of its own takes the name of the
binding it is assigned to.

An identifier carries whatever value its field `name` holds. That is a text in every tree
a parser produces, but nothing here depends on it.
-/

set_option autoImplicit false

namespace CodeMetrics

namespace Document

/-- The kinds of literals that can name a key. -/
def literalKinds : List String := ["Literal", "StringLiteral", "NumericLiteral"]

/-- A value if it counts as set. -/
def ifTruthy (d : Document) : Option Document :=
  if d.truthy then some d else none

/-- The name of a key that is written as a literal: a text that is not empty, or a number. -/
def literalName? (value : Document) : Option Document :=
  match value with
  | .string s => if s.isEmpty then none else some (.string s)
  | .int _ | .float _ => some (.string value.literalText)
  | _ => none

/-- A node has a kind only if it has a field, so its fields are smaller. -/
theorem size_get_lt_of_kind {d : Document} {kind : String} (h : d.kind? = some kind)
    (key : String) : (d.get key).size < d.size := by
  unfold kind? at h
  split at h
  · exact size_get_lt (by assumption) key
  · cases h

/-- The static name of a node. -/
def name? (d : Document) : Option Document :=
  match _h : d.kind? with
  | some "Identifier" => (d.get "name").ifTruthy
  | some "PrivateIdentifier" => some (.string ("#" ++ (d.get "name").display))
  | some "PrivateName" =>
    some (.string ("#" ++ ((name? (d.get "id")).getD (.string "")).display))
  | some "ThisExpression" => some (.string "this")
  | some "Literal" | some "StringLiteral" | some "NumericLiteral" => literalName? (d.get "value")
  | some "MemberExpression" | some "OptionalMemberExpression" =>
    if (d.get "computed").truthy || (d.get "object").kindIn literalKinds then none
    else
      match name? (d.get "object"), name? (d.get "property") with
      | some owner, some member => some (.string (owner.display ++ "." ++ member.display))
      | _, _ => none
  | _ => none
termination_by d.size
decreasing_by all_goals exact size_get_lt_of_kind (by assumption) _

/-- The static name of a node, or `default` if it has none. -/
def nameOr (default : Document) (d : Document) : Document :=
  (name? d).getD default

/-- A readable name of one formal parameter. -/
def parameterName (d : Document) : Document :=
  match _h : d.kind? with
  | some "Identifier" => (d.field? "name").getD (.string "")
  | some "AssignmentPattern" => parameterName (d.get "left")
  | some "RestElement" | some "RestProperty" =>
    .string ("..." ++ (parameterName (d.get "argument")).display)
  | some "ObjectPattern" => .string "\x7b\x7d"
  | some "ArrayPattern" => .string "[]"
  | some "TSParameterProperty" => parameterName (d.get "parameter")
  | _ => .string "<param>"
termination_by d.size
decreasing_by all_goals exact size_get_lt_of_kind (by assumption) _

end Document

/-! ### Names by place -/

namespace Placed

/-- The kinds of parents that name the function or class stored under `value`. -/
def propertyKinds : List String :=
  ["Property", "ObjectProperty", "MethodDefinition", "PropertyDefinition", "ClassProperty",
   "ClassPrivateProperty"]

/-- The name of the binding that a node is assigned to. -/
def bindingName? (p : Placed) : Option Document :=
  match p.parent.kind? with
  | none => none
  | some kind =>
    if kind = "VariableDeclarator" ∧ p.isUnder "init" then
      let target := p.parent.get "id"
      if target.kind? = some "Identifier" then target.name? else none
    else if kind = "AssignmentExpression" ∧ p.isUnder "right" then
      match p.parent.field? "operator" with
      | none | some (.string "=") => (p.parent.get "left").name?
      | some _ => none
    else if kind = "AssignmentPattern" ∧ p.isUnder "right" then
      (p.parent.get "left").name?
    else if propertyKinds.contains kind ∧ p.isUnder "value" then
      if (p.parent.get "computed").truthy then none else (p.parent.get "key").name?
    else none

/-- The name of a function or class: its own identifier first, then its binding. -/
def functionName? (p : Placed) : Option Document :=
  match (p.node.get "id").name? with
  | some own => some own
  | none => p.bindingName?

/-- The name of a method by its key. -/
def methodName? (p : Placed) : Option Document :=
  if (p.node.get "computed").truthy then none else (p.node.get "key").name?

/-- The name of a function or class at a place that need not hold a node. -/
def functionNameOf (p : Placed) : Except Fault (Option Document) := do
  p.node.requireObject
  return p.functionName?

/-- The name of a method at a place that need not hold a node. -/
def methodNameOf (p : Placed) : Except Fault (Option Document) := do
  p.node.requireObject
  return p.methodName?

end Placed

end CodeMetrics
