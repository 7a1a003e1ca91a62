import CodeMetrics.Node.Name

/-!
# `CodeMetrics.Proofs.Node.Name`: names, one node at a time

`Document.name?` and `Document.parameterName` call themselves on parts of a node. `nameFrom` and
`parameterNameFrom` are the same with the names of the parts given, and what is proved about
names by induction starts from there (`name?_eq`, `parameterName_eq`).

A binding names the nodes that hang under some of its keys. Nodes in lists are not among them
(`bindingName?_of_slot`).
-/

set_option autoImplicit false

namespace CodeMetrics

namespace Document

/-- The name of a member, from those of its owner and of its key. -/
def memberName (owner key : Option Document) : Option Document :=
  match owner, key with
  | some owner, some key => some (.string (owner.display ++ "." ++ key.display))
  | _, _ => none

/-- The static name of a node, from those of the nodes that it is made of. -/
def nameFrom (name : Document → Option Document) (d : Document) : Option Document :=
  match d.kind? with
  | some "Identifier" => (d.get "name").ifTruthy
  | some "PrivateIdentifier" => some (.string ("#" ++ (d.get "name").display))
  | some "PrivateName" =>
    some (.string ("#" ++ ((name (d.get "id")).getD (.string "")).display))
  | some "ThisExpression" => some (.string "this")
  | some "Literal" | some "StringLiteral" | some "NumericLiteral" => literalName? (d.get "value")
  | some "MemberExpression" | some "OptionalMemberExpression" =>
    if (d.get "computed").truthy || (d.get "object").kindIn literalKinds then none
    else memberName (name (d.get "object")) (name (d.get "property"))
  | _ => none

/-- A name is put together from the names of the nodes that the node is made of. -/
theorem name?_eq (d : Document) : d.name? = nameFrom name? d := by
  rw [name?]
  unfold nameFrom
  split <;> (rename_i hkind; simp only [hkind]) <;> rfl

/-- The name of a formal parameter, from those of the nodes that it is made of. -/
def parameterNameFrom (name : Document → Document) (d : Document) : Document :=
  match d.kind? with
  | some "Identifier" => (d.field? "name").getD (.string "")
  | some "AssignmentPattern" => name (d.get "left")
  | some "RestElement" | some "RestProperty" =>
    .string ("..." ++ (name (d.get "argument")).display)
  | some "ObjectPattern" => .string "\x7b\x7d"
  | some "ArrayPattern" => .string "[]"
  | some "TSParameterProperty" => name (d.get "parameter")
  | _ => .string "<param>"

/-- The name of a parameter is put together from the names of the nodes that it is made of. -/
theorem parameterName_eq (d : Document) : d.parameterName = parameterNameFrom parameterName d := by
  rw [parameterName]
  unfold parameterNameFrom
  split <;> (rename_i hkind; simp only [hkind])

end Document

/-! ### Bindings -/

namespace Placed

/-- The keys under which a binding names a node. -/
def bindingSlots : List String := ["init", "right", "value"]

/-- A node is under a key only if it hangs there. -/
theorem isUnder_eq {p : Placed} (h : p.node.isObject) (key : String) :
    p.isUnder key = (p.slot == some key) := by
  unfold isUnder
  cases hnode : p.node with
  | object fields => cases p.parent.get key <;> simp [Document.sameAnywhere]
  | _ => rw [hnode] at h; cases h

/-- A node that hangs under any other key is not named by a binding. -/
theorem bindingName?_of_slot {p : Placed} (h : p.node.isObject)
    (hslot : ∀ key ∈ bindingSlots, p.slot ≠ some key) : p.bindingName? = none := by
  have hunder : ∀ key ∈ bindingSlots, p.isUnder key = false := by
    intro key hkey
    rw [isUnder_eq h]
    simpa using hslot key hkey
  unfold bindingName?
  cases p.parent.kind? with
  | none => rfl
  | some kind =>
    simp only [hunder "init" (by decide), hunder "right" (by decide), hunder "value" (by decide),
      Bool.false_eq_true, and_false, if_false]

end Placed

end CodeMetrics
