import CodeMetrics.Dialect.Babel
import CodeMetrics.Proofs.Rule.Reading

/-!
# `CodeMetrics.Proofs.Dialect.Translation`: Babel trees as ESTree trees

A Babel tree has kinds of its own for literals, properties, methods, private names and
directives, and a file around the program. `Babel.translate` gives the ESTree that stands for
the same program, node by node. Most nodes stay as they are or change their kind. A method is
one node with a key and a function, and becomes a property or a method definition that holds
the function.

`Babel.wellFormed` says which trees are meant: every node is of a kind that both dialects have
or that is translated, and the fields that are looked into hold what a parser puts there.

The lemmas here say how a value and its translation are read: it counts as set or not, is a node
or not, and has the children of the value, translated.
-/

set_option autoImplicit false

namespace CodeMetrics

namespace Babel

open Document

/-! ### The translation -/

/-- What becomes of a node. -/
inductive Form where
  /-- It stays as it is. -/
  | kept
  /-- Only its kind changes. -/
  | renamed (kind : String)
  | property
  | literal
  | nullLiteral
  | regExpLiteral
  | bigIntLiteral
  | privateName
  | directive
  | objectMethod
  | classMethod
  deriving DecidableEq

/-- What becomes of the nodes of a kind. -/
def form : String → Form
  | "StringLiteral" | "NumericLiteral" | "BooleanLiteral" | "DirectiveLiteral" => .literal
  | "NullLiteral" => .nullLiteral
  | "RegExpLiteral" => .regExpLiteral
  | "BigIntLiteral" => .bigIntLiteral
  | "PrivateName" => .privateName
  | "Directive" => .directive
  | "ObjectMethod" => .objectMethod
  | "ClassMethod" | "ClassPrivateMethod" => .classMethod
  | "ObjectProperty" => .property
  | "ClassProperty" | "ClassPrivateProperty" => .renamed "PropertyDefinition"
  | "SpreadProperty" => .renamed "SpreadElement"
  | "RestProperty" => .renamed "RestElement"
  | _ => .kept

/-- The kind of the translated nodes. -/
def estreeKind (kind : String) : String :=
  match form kind with
  | .kept => kind
  | .renamed other => other
  | .property | .objectMethod => "Property"
  | .literal | .nullLiteral | .regExpLiteral | .bigIntLiteral => "Literal"
  | .privateName => "PrivateIdentifier"
  | .directive => "ExpressionStatement"
  | .classMethod => "MethodDefinition"

/-- A node with a kind and fields of its own, and the rest of the fields of another node. -/
def build (kind : String) (own rest : List (String × Document)) : Document :=
  .object (("type", .string kind) :: own ++ rest)

/-- The fields without those of some keys. -/
def without (keys : List String) (fields : List (String × Document)) : List (String × Document) :=
  fields.filter fun field => !keys.contains field.1

/-- The fields that hold no children, without the kind: locations, comments and the like. -/
def sideFields (fields : List (String × Document)) : List (String × Document) :=
  fields.filter fun field => nonChildKeys.contains field.1 && field.1 != "type"

/-- The function that a method stands for. -/
def methodFunction (node : Document) : Document :=
  .object [("type", .string "FunctionExpression"), ("id", .null), ("params", node.get "params"),
    ("body", node.get "body"), ("async", node.get "async"), ("generator", node.get "generator"),
    ("loc", node.get "loc")]

/-- Whether a member is read or written through a function. -/
def isAccessor (node : Document) : Bool :=
  (node.get "kind").isOneOf ["get", "set"]

/-- The translation of a node, from its fields with their values translated. -/
def Form.apply (fields : List (String × Document)) : Form → Document :=
  let node := Document.object fields
  fun
  | .kept => node
  | .renamed kind => build kind [] (without ["type"] fields)
  | .property =>
    build "Property" [("kind", .string "init"), ("method", .bool false)]
      (without ["type", "kind", "method"] fields)
  | .literal => build "Literal" [("value", node.get "value")] (sideFields fields)
  | .nullLiteral => build "Literal" [("value", .null)] (sideFields fields)
  | .regExpLiteral =>
    build "Literal"
      [("value", .null),
       ("regex", .object [("pattern", node.get "pattern"), ("flags", node.get "flags")])]
      (sideFields fields)
  | .bigIntLiteral =>
    build "Literal" [("value", .null), ("bigint", node.get "value")] (sideFields fields)
  | .privateName =>
    build "PrivateIdentifier" [("name", (node.get "id").get "name")] (sideFields fields)
  | .directive =>
    build "ExpressionStatement" [("expression", node.get "value")] (sideFields fields)
  | .objectMethod =>
    build "Property"
      [("kind", if isAccessor node then node.get "kind" else .string "init"),
       ("method", .bool !(isAccessor node)),
       ("shorthand", .bool false),
       ("computed", node.get "computed"),
       ("key", node.get "key"),
       ("value", methodFunction node)]
      (sideFields fields)
  | .classMethod =>
    build "MethodDefinition"
      [("kind", node.get "kind"),
       ("static", node.get "static"),
       ("computed", node.get "computed"),
       ("key", node.get "key"),
       ("value", methodFunction node)]
      (sideFields fields)

mutual

/-- The ESTree for a Babel tree. What is no child of a node is left as it is. -/
def translate : Document → Document
  | .list items => .list (translateItems items)
  | .object fields =>
    (((Document.object fields).kind?.map form).getD .kept).apply (translateFields fields)
  | .null => .null
  | .bool value => .bool value
  | .int value => .int value
  | .float value => .float value
  | .string text => .string text

/-- The translations of some values. -/
def translateItems : List Document → List Document
  | [] => []
  | d :: rest => translate d :: translateItems rest

/-- The fields with their values translated. -/
def translateFields : List (String × Document) → List (String × Document)
  | [] => []
  | (key, d) :: rest =>
    (key, if nonChildKeys.contains key then d else translate d) :: translateFields rest

end

/-- The ESTree for a whole module. A file is left out, and its program takes its location. -/
def translateRoot (root : Document) : Document :=
  if root.kindIn ["File"] then (translate (root.get "program")).set "loc" (root.get "loc")
  else translate root

/-! ### Well-formed trees -/

/-- Whether all children of a node hang under some of the given keys. -/
def childKeysIn (keys : List String) (node : Document) : Bool :=
  (node.children []).all fun c => keys.contains c.key

/-- Whether a value is a text. -/
def isText (d : Document) : Bool :=
  d.text?.isSome

/-- Whether the fields with the given keys are there, once each and in this order. -/
def listsKeys (keys : List String) (fields : List (String × Document)) : Bool :=
  (fields.filter fun field => keys.contains field.1).map Prod.fst == keys

/-- The keys that hold lists. -/
def listKeys : List String := ["arguments", "elements", "params", "quasis"]

/-- The keys of the records that a token looks into. -/
def innerKeys : Token → List String
  | .choose _ yes no => innerKeys yes ++ innerKeys no
  | .composed pieces => pieces.filterMap fun
    | .inner key _ => some key
    | _ => none
  | .inner key _ => [key]
  | _ => []

/-- Whether a kind is the same in a Babel tree and in an ESTree. -/
def isShared (kind : String) : Bool :=
  Estree.dialect.defines kind

/-- Whether a value has no kind that is translated. -/
def isPlain (d : Document) : Bool :=
  match d.kind? with
  | none => true
  | some kind => isShared kind

/-- Whether the fields of a node hold what its rule and its names look for. -/
def plainFields (fields : List (String × Document)) : Bool :=
  let node := Document.object fields
  dialect.plainTexts fields &&
  listKeys.all (fun key => !(node.get key).isObject) &&
  (dialect.ruleFor node).all (fun rule =>
    ((rule.operators ++ rule.operands).flatMap innerKeys).all fun key => isPlain (node.get key)) &&
  match node.get "quasis" with
  | .list parts => parts.all fun part => part.kindIn ["TemplateElement"]
  | _ => true

/-- Whether a method has a key, parameters and a body, the key first, and no other children. -/
def methodFields (fields : List (String × Document)) : Bool :=
  listsKeys ["key", "params"] fields && listsKeys ["body"] fields &&
  childKeysIn ["key", "params", "body"] (.object fields)

/-- Whether a directive holds its literal and nothing else. -/
def directiveFields (fields : List (String × Document)) : Bool :=
  let literal := (Document.object fields).get "value"
  listsKeys ["value"] fields && childKeysIn ["value"] (.object fields) &&
  literal.kindIn ["DirectiveLiteral"] && isText (literal.get "value") && childKeysIn [] literal

/-- Whether the fields of an object are those of a node that is translated, or of no node. -/
def nodeFields (fields : List (String × Document)) : Bool :=
  let node := Document.object fields
  match node.kind? with
  | none => true
  | some "StringLiteral" => isText (node.get "value") && childKeysIn [] node
  | some "NumericLiteral" => (node.get "value").number?.isSome && childKeysIn [] node
  | some "BooleanLiteral" =>
    (match node.get "value" with | .bool _ => true | _ => false) && childKeysIn [] node
  | some "NullLiteral" => childKeysIn [] node
  | some "RegExpLiteral" =>
    isText (node.get "pattern") && isText (node.get "flags") && childKeysIn [] node
  | some "BigIntLiteral" => isText (node.get "value") && childKeysIn [] node
  | some "PrivateName" =>
    (node.get "id").kindIn ["Identifier"] && isText ((node.get "id").get "name") &&
    childKeysIn ["id"] node
  | some "ObjectMethod" | some "ClassMethod" | some "ClassPrivateMethod" =>
    methodFields fields && plainFields fields
  | some "ObjectProperty" =>
    plainFields fields && (node.children []).all fun c => !(["kind", "method"].contains c.key)
  | some "ClassProperty" | some "ClassPrivateProperty" | some "SpreadProperty"
  | some "RestProperty" => plainFields fields
  | some kind => isShared kind && plainFields fields

mutual

/-- Whether a value is a Babel tree that can be translated, or holds such trees. -/
def wellFormed : Document → Bool
  | .list items => wellFormedItems items
  | .object fields =>
    if (Document.object fields).kindIn ["Directive"] then directiveFields fields
    else nodeFields fields && wellFormedFields fields
  | _ => true

/-- Whether all items can be translated. -/
def wellFormedItems : List Document → Bool
  | [] => true
  | d :: rest => wellFormed d && wellFormedItems rest

/-- Whether all values that can hold children can be translated. -/
def wellFormedFields : List (String × Document) → Bool
  | [] => true
  | (key, d) :: rest => (nonChildKeys.contains key || wellFormed d) && wellFormedFields rest

end

/-- Whether a whole module can be translated. A file holds its program and no other node. -/
def wellFormedRoot : Document → Bool
  | .object fields =>
    let root := Document.object fields
    if root.kindIn ["File"] then
      listsKeys ["program"] fields && childKeysIn ["program"] root &&
      (root.get "program").kindIn ["Program"] && wellFormed (root.get "program")
    else root.isNode && wellFormed root
  | _ => false

/-! ### The nodes of a well-formed tree -/

variable {fields : List (String × Document)}

/-- The kinds that only change their name. -/
def renamings : List (String × String) :=
  [("ClassProperty", "PropertyDefinition"), ("ClassPrivateProperty", "PropertyDefinition"),
   ("SpreadProperty", "SpreadElement"), ("RestProperty", "RestElement")]

/-- The nodes of a well-formed tree, with what is known of their fields and by their kinds. -/
inductive Shape (fields : List (String × Document)) : String → Prop
  | shared {kind : String} (known : isShared kind) (plain : plainFields fields) : Shape fields kind
  | renamed {kind other : String} (known : (kind, other) ∈ renamings)
      (plain : plainFields fields) : Shape fields kind
  | property (plain : plainFields fields)
      (apart : ∀ c ∈ (Document.object fields).children [], c.key ∉ ["kind", "method"]) :
      Shape fields "ObjectProperty"
  | stringLiteral {text : String} (value : (Document.object fields).get "value" = .string text)
      (leaf : (Document.object fields).children [] = []) : Shape fields "StringLiteral"
  | numericLiteral (value : ((Document.object fields).get "value").number?.isSome)
      (leaf : (Document.object fields).children [] = []) : Shape fields "NumericLiteral"
  | booleanLiteral {b : Bool} (value : (Document.object fields).get "value" = .bool b)
      (leaf : (Document.object fields).children [] = []) : Shape fields "BooleanLiteral"
  | nullLiteral (leaf : (Document.object fields).children [] = []) : Shape fields "NullLiteral"
  | regExpLiteral {pattern flags : String}
      (hpattern : (Document.object fields).get "pattern" = .string pattern)
      (hflags : (Document.object fields).get "flags" = .string flags)
      (leaf : (Document.object fields).children [] = []) : Shape fields "RegExpLiteral"
  | bigIntLiteral {digits : String} (value : (Document.object fields).get "value" = .string digits)
      (leaf : (Document.object fields).children [] = []) : Shape fields "BigIntLiteral"
  | privateName {name : String} (id : ((Document.object fields).get "id").kind? = some "Identifier")
      (hname : ((Document.object fields).get "id").get "name" = .string name)
      (only : ∀ c ∈ (Document.object fields).children [], c.key = "id") :
      Shape fields "PrivateName"
  | directive {text : String}
      (literal : ((Document.object fields).get "value").kind? = some "DirectiveLiteral")
      (value : ((Document.object fields).get "value").get "value" = .string text)
      (leaf : ((Document.object fields).get "value").children [] = [])
      (keys : listsKeys ["value"] fields)
      (only : ∀ c ∈ (Document.object fields).children [], c.key = "value") :
      Shape fields "Directive"
  | objectMethod (method : methodFields fields) (plain : plainFields fields) :
      Shape fields "ObjectMethod"
  | classMethod {kind : String} (known : kind ∈ ["ClassMethod", "ClassPrivateMethod"])
      (method : methodFields fields) (plain : plainFields fields) : Shape fields kind

/-- The kinds of nodes that are built anew. -/
def rebuiltKinds : List String :=
  ["ObjectProperty", "StringLiteral", "NumericLiteral", "BooleanLiteral", "NullLiteral",
   "RegExpLiteral", "BigIntLiteral", "PrivateName", "Directive", "ObjectMethod", "ClassMethod",
   "ClassPrivateMethod"]

/-- A node keeps its kind, changes only its kind, or is built anew. -/
theorem Shape.kind_cases {kind : String} (h : Shape fields kind) :
    isShared kind ∧ plainFields fields ∨
      (∃ other, (kind, other) ∈ renamings) ∧ plainFields fields ∨ kind ∈ rebuiltKinds := by
  cases h with
  | shared known plain => exact .inl ⟨known, plain⟩
  | @renamed kind other known plain => exact .inr (.inl ⟨⟨other, known⟩, plain⟩)
  | classMethod known method plain =>
    have hall : ∀ kind ∈ ["ClassMethod", "ClassPrivateMethod"], kind ∈ rebuiltKinds := by decide
    exact .inr (.inr (hall _ known))
  | _ => exact .inr (.inr (by decide))

theorem eq_string_of_isText {d : Document} (h : isText d) : ∃ text, d = .string text := by
  cases d with
  | string text => exact ⟨text, rfl⟩
  | _ => cases h

theorem children_eq_nil_of_childKeysIn {d : Document} (h : childKeysIn [] d) :
    d.children [] = [] := by
  rw [childKeysIn, List.all_eq_true] at h
  exact List.eq_nil_iff_forall_not_mem.mpr fun c hc => by simpa using h c hc

theorem eq_of_childKeysIn {d : Document} {key : String} (h : childKeysIn [key] d) :
    ∀ c ∈ d.children [], c.key = key := by
  rw [childKeysIn, List.all_eq_true] at h
  exact fun c hc => by simpa using h c hc

theorem kind?_of_kindIn {d : Document} {kind : String} (h : d.kindIn [kind]) :
    d.kind? = some kind := by
  unfold kindIn at h
  split at h
  · rename_i found hfound
    rw [hfound, List.mem_singleton.mp (List.contains_iff_mem.mp h)]
  · cases h

/-- The fields of a node are those of its kind. -/
theorem shape_of_nodeFields {kind : String} (hkind : (Document.object fields).kind? = some kind)
    (h : nodeFields fields) : Shape fields kind := by
  unfold nodeFields at h
  dsimp only at h
  rw [hkind] at h
  -- One case per branch of `nodeFields`, in its order.
  split at h <;> rename_i heq <;> cases heq
  · rw [Bool.and_eq_true] at h
    obtain ⟨text, htext⟩ := eq_string_of_isText h.1
    exact .stringLiteral htext (children_eq_nil_of_childKeysIn h.2)
  · rw [Bool.and_eq_true] at h
    exact .numericLiteral h.1 (children_eq_nil_of_childKeysIn h.2)
  · rw [Bool.and_eq_true] at h
    obtain ⟨hvalue, hleaf⟩ := h
    cases hcase : (Document.object fields).get "value" with
    | bool b => exact .booleanLiteral hcase (children_eq_nil_of_childKeysIn hleaf)
    | _ => simp [hcase] at hvalue
  · exact .nullLiteral (children_eq_nil_of_childKeysIn h)
  · rw [Bool.and_eq_true, Bool.and_eq_true] at h
    obtain ⟨pattern, hpattern⟩ := eq_string_of_isText h.1.1
    obtain ⟨flags, hflags⟩ := eq_string_of_isText h.1.2
    exact .regExpLiteral hpattern hflags (children_eq_nil_of_childKeysIn h.2)
  · rw [Bool.and_eq_true] at h
    obtain ⟨digits, hdigits⟩ := eq_string_of_isText h.1
    exact .bigIntLiteral hdigits (children_eq_nil_of_childKeysIn h.2)
  · rw [Bool.and_eq_true, Bool.and_eq_true] at h
    obtain ⟨name, hname⟩ := eq_string_of_isText h.1.2
    exact .privateName (kind?_of_kindIn h.1.1) hname (eq_of_childKeysIn h.2)
  · rw [Bool.and_eq_true] at h
    exact .objectMethod h.1 h.2
  · rw [Bool.and_eq_true] at h
    exact .classMethod (by decide) h.1 h.2
  · rw [Bool.and_eq_true] at h
    exact .classMethod (by decide) h.1 h.2
  · rw [Bool.and_eq_true, List.all_eq_true] at h
    exact .property h.1 fun c hc => by simpa using h.2 c hc
  · exact .renamed (show (_, "PropertyDefinition") ∈ renamings by decide) h
  · exact .renamed (show (_, "PropertyDefinition") ∈ renamings by decide) h
  · exact .renamed (show (_, "SpreadElement") ∈ renamings by decide) h
  · exact .renamed (show (_, "RestElement") ∈ renamings by decide) h
  · rw [Bool.and_eq_true] at h
    exact .shared h.1 h.2

/-- What a well-formed tree is at its root, and below. A directive is checked as a whole. -/
theorem shape_of_wellFormed {kind : String} (hkind : (Document.object fields).kind? = some kind)
    (h : wellFormed (.object fields)) :
    Shape fields kind ∧ (kind ≠ "Directive" → wellFormedFields fields) := by
  rw [wellFormed] at h
  split at h
  · rename_i hdirective
    have hkind' := kind?_of_kindIn hdirective
    rw [hkind] at hkind'
    cases hkind'
    refine ⟨?_, fun hne => absurd rfl hne⟩
    simp only [directiveFields, Bool.and_eq_true] at h
    obtain ⟨⟨⟨⟨hkeys, honly⟩, hliteral⟩, hvalue⟩, hleaf⟩ := h
    obtain ⟨text, htext⟩ := eq_string_of_isText hvalue
    exact .directive (kind?_of_kindIn hliteral) htext (children_eq_nil_of_childKeysIn hleaf) hkeys
      (eq_of_childKeysIn honly)
  · rw [Bool.and_eq_true] at h
    exact ⟨shape_of_nodeFields hkind h.1, fun _ => h.2⟩

/-! ### Translated values -/

theorem translateItems_eq_map (items : List Document) : translateItems items = items.map translate := by
  induction items with
  | nil => rfl
  | cons d rest ih => rw [translateItems, ih, List.map_cons]

/-- A value under a key that can hold children is translated. -/
theorem lookup_translateFields {key : String} (h : key ∉ nonChildKeys) :
    lookup key (translateFields fields) = (lookup key fields).map translate := by
  induction fields with
  | nil => rfl
  | cons field rest ih =>
    obtain ⟨name, d⟩ := field
    rw [translateFields, lookup, lookup]
    by_cases hkey : name = key
    · subst hkey
      rw [if_pos rfl, if_pos rfl, if_neg (by simpa using h)]
      rfl
    · rw [if_neg hkey, if_neg hkey, ih]

/-- Any other value stays as it is. -/
theorem lookup_translateFields_side {key : String} (h : key ∈ nonChildKeys) :
    lookup key (translateFields fields) = lookup key fields := by
  induction fields with
  | nil => rfl
  | cons field rest ih =>
    obtain ⟨name, d⟩ := field
    rw [translateFields, lookup, lookup]
    by_cases hkey : name = key
    · subst hkey
      rw [if_pos rfl, if_pos rfl, if_pos (by simpa using h)]
    · rw [if_neg hkey, if_neg hkey, ih]

theorem kind?_translateFields :
    (Document.object (translateFields fields)).kind? = (Document.object fields).kind? := by
  have htype : lookup "type" (translateFields fields) = lookup "type" fields :=
    lookup_translateFields_side (by decide)
  simp only [kind?, field?, htype]

@[simp] theorem kind?_build (kind : String) (own rest : List (String × Document)) :
    (build kind own rest).kind? = some kind := rfl

/-- A node is translated by the form of its kind. -/
theorem translate_object {kind : String} (h : (Document.object fields).kind? = some kind) :
    translate (.object fields) = (form kind).apply (translateFields fields) := by
  rw [translate, h]
  rfl

/-- Objects that are no nodes stay objects that are no nodes. -/
theorem translate_record (h : (Document.object fields).kind? = none) :
    translate (.object fields) = .object (translateFields fields) := by
  rw [translate, h]
  rfl

/-- Objects stay objects. -/
theorem exists_translate_object (fields : List (String × Document)) :
    ∃ fields', translate (.object fields) = .object fields' := by
  rw [translate]
  cases ((Document.object fields).kind?.map form).getD .kept <;> exact ⟨_, rfl⟩

/-- The kind of a translated value. -/
theorem kind?_translate (d : Document) : (translate d).kind? = d.kind?.map estreeKind := by
  cases d with
  | object fields =>
    cases hkind : (Document.object fields).kind? with
    | none => rw [translate_record hkind, kind?_translateFields, hkind, Option.map_none]
    | some kind =>
      rw [translate_object hkind, Option.map_some, estreeKind]
      cases form kind with
      | kept => rw [Form.apply, kind?_translateFields, hkind]
      | _ => rfl
  | _ => rfl

theorem isNode_translate (d : Document) : (translate d).isNode = d.isNode := by
  rw [isNode, kind?_translate, isNode, Option.isSome_map]

theorem isObject_translate (d : Document) : (translate d).isObject = d.isObject := by
  cases d with
  | object fields =>
    obtain ⟨fields', h⟩ := exists_translate_object fields
    rw [h, isObject, isObject]
  | _ => rfl

theorem isOneOf_translate (d : Document) (texts : List String) :
    (translate d).isOneOf texts = d.isOneOf texts := by
  cases d with
  | object fields =>
    obtain ⟨fields', h⟩ := exists_translate_object fields
    rw [h]
    rfl
  | _ => rfl

/-- A node counts as set. -/
theorem truthy_of_isNode {d : Document} (h : d.isNode) : d.truthy := by
  unfold isNode kind? field? at h
  cases d with
  | object fields =>
    cases fields with
    | nil => simp [lookup] at h
    | cons field rest => rfl
  | _ => simp at h

theorem truthy_translate (d : Document) : (translate d).truthy = d.truthy := by
  cases hnode : d.isNode with
  | true => rw [truthy_of_isNode hnode, truthy_of_isNode ((isNode_translate d).trans hnode)]
  | false =>
    cases d with
    | object fields =>
      rw [isNode, Option.isSome_eq_false_iff, Option.isNone_iff_eq_none] at hnode
      rw [translate_record hnode]
      cases fields <;> rfl
    | list items => cases items <;> rfl
    | _ => rfl

/-- What is no collection stays as it is. -/
theorem translate_of_scalar {d : Document} (h : d.isCollection = false) : translate d = d := by
  cases d with
  | list items => cases h
  | object fields => cases h
  | _ => rfl

/-- A field that holds no collection stays as it is. -/
theorem map_translate_of_scalar {field : Option Document}
    (h : (field.getD .null).isCollection = false) : field.map translate = field := by
  cases field with
  | none => rfl
  | some value => exact congrArg some (translate_of_scalar h)

/-- The first element is translated. -/
theorem first_translate {d : Document} (h : d.isObject = false) :
    (translate d).first = d.first.map translate := by
  cases d with
  | list items =>
    rw [translate, first, first, translateItems_eq_map]
    cases items <;> rfl
  | string s =>
    show (Document.string s).first = (Document.string s).first.map translate
    rw [first]
    cases s.toList <;> rfl
  | object fields => cases h
  | _ => rfl

/-! ### Translated children -/

/-- A child with its node translated. -/
def translateChild (c : Child) : Child :=
  { c with node := translate c.node }

theorem childrenAt_translate (key : String) (d : Document) :
    childrenAt key (translate d) = (childrenAt key d).map translateChild := by
  cases d with
  | object fields =>
    obtain ⟨fields', h⟩ := exists_translate_object fields
    have hnode := isNode_translate (.object fields)
    rw [h] at hnode ⊢
    simp only [childrenAt, hnode]
    split
    · rw [List.map_singleton, translateChild, h]
    · rfl
  | list items =>
    have hnode : isNode ∘ translate = isNode := funext isNode_translate
    rw [translate, translateItems_eq_map]
    simp only [childrenAt, List.filter_map, List.map_map, hnode]
    rfl
  | _ => rfl

/-- The children of translated fields are the translated children. -/
theorem childrenIn_translateFields {keep : String → Bool}
    (h : ∀ key ∈ nonChildKeys, keep key = false) :
    childrenIn keep (translateFields fields) = (childrenIn keep fields).map translateChild := by
  induction fields with
  | nil => rfl
  | cons field rest ih =>
    obtain ⟨key, d⟩ := field
    rw [translateFields, childrenIn, childrenIn]
    by_cases hkey : key ∈ nonChildKeys
    · rw [h key hkey, ih]
      rfl
    · have hcontains : nonChildKeys.contains key = false := by simpa using hkey
      rw [hcontains, ih]
      simp only [Bool.false_eq_true, if_false, childrenAt_translate]
      split
      · rw [List.map_append]
      · rfl

/-! ### Nodes that are read field by field -/

theorem field?_build {key : String} (h : key ≠ "type") (kind : String)
    (own rest : List (String × Document)) :
    (build kind own rest).field? key = (lookup key own).or (lookup key rest) := by
  rw [build, List.cons_append, field?, lookup, if_neg (Ne.symm h), lookup_append]

/-- The second node has the translated fields of the first one, apart from some keys, and the
translated children. -/
structure Mirrors (except : List String) (a b : Document) : Prop where
  field? : ∀ key, key ∉ nonChildKeys → key ∉ except → b.field? key = (a.field? key).map translate
  loc : b.get "loc" = a.get "loc"
  children : ∀ ignored, b.children ignored = (a.children ignored).map translateChild

/-- What is no child key is never asked for children. -/
theorem keep_false {ignored : List String} :
    ∀ key ∈ nonChildKeys, (!nonChildKeys.contains key && !ignored.contains key) = false := by
  intro key hkey
  rw [List.contains_iff_mem.mpr hkey]
  rfl

theorem mirrors_kept : Mirrors [] (.object fields) (.object (translateFields fields)) where
  field? key hkey _ := lookup_translateFields hkey
  loc := by
    rw [Document.get, Document.get, Document.field?, Document.field?,
      lookup_translateFields_side (by decide)]
  children ignored := childrenIn_translateFields keep_false

/-- A node with another kind and some fields set otherwise. -/
theorem mirrors_build {keys : List String} {own : List (String × Document)} (kind : String)
    (hloc : "loc" ∉ keys) (hown : ∀ field ∈ own, field.1 ∈ keys ∧ childrenAt field.1 field.2 = [])
    (hchildren : ∀ c ∈ (Document.object fields).children [], c.key ∉ keys) :
    Mirrors keys (.object fields)
      (build kind own (without ("type" :: keys) (translateFields fields))) := by
  have hnone : ∀ key, key ∉ keys → lookup key own = none := by
    intro key hkey
    cases hlookup : lookup key own with
    | none => rfl
    | some value => exact absurd (hown _ (mem_of_lookup hlookup)).1 hkey
  refine ⟨fun key hkey hexcept => ?_, ?_, fun ignored => ?_⟩
  · have htype : key ≠ "type" := fun h => hkey (h ▸ by decide)
    rw [field?_build htype, hnone key hexcept, Option.none_or, without,
      lookup_filter (fun key => !("type" :: keys).contains key) (by simp [htype, hexcept]),
      lookup_translateFields hkey]
    rfl
  · rw [Document.get, Document.get, field?_build (by decide), hnone _ hloc, Option.none_or, without,
      lookup_filter (fun key => !("type" :: keys).contains key) (by simp [hloc]),
      lookup_translateFields_side (by decide)]
    rfl
  -- The fields that are set have no children, and the fields that are left out had none.
  · have hkept : ∀ c ∈ (Document.object fields).children ignored,
        !("type" :: keys).contains c.key := by
      intro c hc
      have htype : c.key ≠ "type" := fun h => key_of_mem_children hc (h ▸ by decide)
      rw [children_eq_filter, List.mem_filter] at hc
      simpa [htype] using hchildren c hc.1
    have hempty : childrenIn (fun key => !nonChildKeys.contains key && !ignored.contains key) own =
        [] := by
      rw [childrenIn_eq_flatMap, List.flatMap_eq_nil_iff]
      intro field hfield
      rw [(hown field hfield).2, ite_self]
    rw [build, Document.children, List.cons_append, childrenIn, keep_false _ (by decide),
      if_neg Bool.false_ne_true, childrenIn_append, hempty, List.nil_append, without,
      childrenIn_filter _ fun key => !("type" :: keys).contains key, childrenIn_translateFields,
      ← filter_childrenIn _ fun key => !("type" :: keys).contains key]
    · exact congrArg _ (List.filter_eq_self.mpr hkept)
    · intro key hkey
      rw [keep_false key hkey, Bool.false_and]

/-! ### Nodes with known keys -/

/-- The children under keys that are there once, in this order. -/
theorem children_of_listsKeys {keys : List String} (h : listsKeys keys fields)
    (hnodup : keys.Nodup) (hkeys : ∀ key ∈ keys, key ∉ nonChildKeys) :
    ((Document.object fields).children []).filter (fun c => keys.contains c.key) =
      keys.flatMap fun key => childrenAt key ((Document.object fields).get key) := by
  have hlist : (fields.filter fun field => keys.contains field.1).map Prod.fst = keys := by
    simpa [listsKeys] using h
  have hkeep : ∀ field : String × Document,
      ((!nonChildKeys.contains field.1 && !([].contains field.1)) && keys.contains field.1) =
        keys.contains field.1 := by
    intro field
    cases hkey : keys.contains field.1 with
    | false => rw [Bool.and_false]
    | true => simpa using hkeys field.1 (by simpa using hkey)
  have hfields := eq_map_lookup (hlist.symm ▸ hnodup)
  rw [hlist] at hfields
  rw [Document.children, filter_childrenIn _ fun key => keys.contains key, childrenIn_eq_filter]
  simp only [hkeep]
  rw [hfields, List.flatMap_map]
  refine List.flatMap_congr fun key hkey => ?_
  rw [lookup_filter (fun key => keys.contains key) (by simpa using hkey)]
  rfl

/-- Nothing hangs under the side fields. -/
theorem childrenIn_sideFields (ignored : List String) (fields : List (String × Document)) :
    childrenIn (fun key => !nonChildKeys.contains key && !ignored.contains key)
      (sideFields fields) = [] := by
  rw [childrenIn_eq_flatMap, List.flatMap_eq_nil_iff]
  intro field hfield
  have hside := (List.mem_filter.mp hfield).2
  simp only [Bool.and_eq_true] at hside
  rw [hside.1]
  rfl

/-- The children of a node that is built from fields of its own. -/
theorem children_build (kind : String) (own : List (String × Document)) (ignored : List String) :
    (build kind own (sideFields fields)).children ignored =
      childrenIn (fun key => !nonChildKeys.contains key && !ignored.contains key) own := by
  rw [build, Document.children, List.cons_append, childrenIn, keep_false _ (by decide),
    if_neg Bool.false_ne_true, childrenIn_append, childrenIn_sideFields, List.append_nil]

end Babel

end CodeMetrics
