import CodeMetrics.Proofs.Dialect.PortableRule

/-!
# `CodeMetrics.Proofs.Document.Remark`: trees that differ in comments and positions

Under some keys a parser leaves what is no part of the program: comments, tokens, offsets, raw
texts and links back to the parent (`remarkKeys`). `Document.Remarked` relates two trees that may
differ there, and only there: at each node the remarks of one tree may be missing in the other,
hold something else or stand elsewhere.

The relation passes to all other fields (`Remarked.get`). Children are found in the same order
(`Remarked.children`), because no child hangs under a key of a remark.
-/

set_option autoImplicit false

namespace CodeMetrics

/-- The keys under which a node holds what is no part of the program. -/
def remarkKeys : List String :=
  ["range", "start", "end", "leadingComments", "trailingComments", "innerComments", "comments",
   "tokens", "extra", "parent"]

/-- Apart from its kind and its location, what is no child of a node is a remark. -/
theorem mem_nonChildKeys_iff {key : String} :
    key ∈ nonChildKeys ↔ key = "type" ∨ key = "loc" ∨ key ∈ remarkKeys := by
  simp [nonChildKeys, remarkKeys]

namespace Document

/-- The fields that can hold children. -/
def childFields (fields : List (String × Document)) : List (String × Document) :=
  fields.filter fun field => !nonChildKeys.contains field.1

/-- The second tree is the first with other remarks at its nodes. All other fields stand in the
same order, and kinds and locations are the same. -/
inductive Remarked : Document → Document → Prop
  | same (d : Document) : Remarked d d
  | list {items items' : List Document} (each : List.Forall₂ Remarked items items') :
      Remarked (.list items) (.list items')
  | node {fields fields' : List (String × Document)} (typed : (Document.object fields).isNode)
      (kind : lookup "type" fields' = lookup "type" fields)
      (loc : lookup "loc" fields' = lookup "loc" fields)
      (keys : (childFields fields).map Prod.fst = (childFields fields').map Prod.fst)
      (values : List.Forall₂ Remarked ((childFields fields).map Prod.snd)
        ((childFields fields').map Prod.snd)) :
      Remarked (.object fields) (.object fields')

variable {fields : List (String × Document)}

theorem lookup_childFields {key : String} (h : key ∉ nonChildKeys) :
    lookup key (childFields fields) = lookup key fields :=
  lookup_filter (fun key => !nonChildKeys.contains key) (by simpa using h)

/-- The children of a node hang under the fields that can hold children. -/
theorem children_childFields (fields : List (String × Document)) (ignored : List String) :
    (Document.object (childFields fields)).children ignored =
      (Document.object fields).children ignored := by
  have hkeep : (fun key => !nonChildKeys.contains key && !ignored.contains key &&
      !nonChildKeys.contains key) =
        fun key => !nonChildKeys.contains key && !ignored.contains key := by
    funext key
    rw [Bool.and_right_comm, Bool.and_self]
  rw [children, children, childFields, childrenIn_filter _ fun key => !nonChildKeys.contains key,
    hkeep]

/-- Putting something under a key of a remark leaves the other fields alone. -/
theorem childFields_assign {key : String} (h : key ∈ nonChildKeys) (value : Document) :
    childFields (assign key value fields) = childFields fields := by
  unfold childFields
  induction fields with
  | nil => simp [assign, h]
  | cons field rest ih =>
    rw [assign]
    split
    · rename_i hkey
      rw [List.filter_cons_of_neg (by simpa using h), List.filter_cons_of_neg (by simpa [hkey])]
    · rw [List.filter_cons, List.filter_cons, ih]

/-- A remark at a node can be added or replaced. -/
theorem Remarked.set {d : Document} (typed : d.isNode) {key : String} (h : key ∈ remarkKeys)
    (value : Document) : d.Remarked (d.set key value) := by
  have hkey : key ∈ nonChildKeys := mem_nonChildKeys_iff.mpr (.inr (.inr h))
  have htype : key ≠ "type" := by rintro rfl; exact absurd h (by decide)
  have hloc : key ≠ "loc" := by rintro rfl; exact absurd h (by decide)
  cases d with
  | object fields =>
    refine .node typed ?_ ?_ ?_ ?_
    · rw [lookup_assign, if_neg htype]
    · rw [lookup_assign, if_neg hloc]
    · rw [childFields_assign hkey]
    · rw [childFields_assign hkey]
      exact List.forall₂_same.mpr fun d _ => .same d
  | _ => exact .same _

namespace Remarked

variable {a b : Document}

/-! ### Fields -/

/-- Fields that are no remarks agree. -/
theorem field? (h : a.Remarked b) {key : String} (hkey : key ∉ remarkKeys) :
    Option.Rel Remarked (a.field? key) (b.field? key) := by
  have hsame : ∀ x : Option Document, Option.Rel Remarked x x := by
    rintro (_ | d)
    · exact .none
    · exact .some (.same d)
  cases h with
  | same => exact hsame _
  | list each => exact .none
  | @node fields fields' typed kind loc keys values =>
    -- A key that holds no children is that of the kind, of the location or of a remark.
    by_cases hchild : key ∈ nonChildKeys
    · rcases mem_nonChildKeys_iff.mp hchild with rfl | rfl | hremark
      · rw [Document.field?, Document.field?, kind]
        exact hsame _
      · rw [Document.field?, Document.field?, loc]
        exact hsame _
      · exact absurd hremark hkey
    · have hfound := lookup_of_forall₂ keys values key
      rwa [lookup_childFields hchild, lookup_childFields hchild] at hfound

theorem get (h : a.Remarked b) {key : String} (hkey : key ∉ remarkKeys) :
    (a.get key).Remarked (b.get key) := by
  have hfield := h.field? hkey
  unfold Document.get
  generalize a.field? key = x, b.field? key = y at hfield
  cases hfield with
  | none => exact .same _
  | some h => exact h

/-- Texts, numbers, truth values and null hold no remarks. -/
theorem eq_of_scalar (h : a.Remarked b) (scalar : a.isCollection = false) : b = a := by
  cases h with
  | same => rfl
  | list => cases scalar
  | node => cases scalar

theorem field?_eq (h : a.Remarked b) {key : String} (hkey : key ∉ remarkKeys)
    (scalar : (a.get key).isCollection = false) : b.field? key = a.field? key := by
  have hfield := h.field? hkey
  unfold Document.get at scalar
  generalize a.field? key = x, b.field? key = y at hfield scalar
  cases hfield with
  | none => rfl
  | some h => rw [h.eq_of_scalar scalar]

theorem get_eq (h : a.Remarked b) {key : String} (hkey : key ∉ remarkKeys)
    (scalar : (a.get key).isCollection = false) : b.get key = a.get key :=
  (h.get hkey).eq_of_scalar scalar

/-! ### Kinds and lines -/

theorem kind?_eq (h : a.Remarked b) : b.kind? = a.kind? := by
  cases h with
  | same => rfl
  | list => rfl
  | node typed kind loc keys values => rw [kind?, kind?, Document.field?, Document.field?, kind]

theorem isNode_eq (h : a.Remarked b) : b.isNode = a.isNode := by
  rw [isNode, isNode, h.kind?_eq]

theorem kindIn_eq (h : a.Remarked b) (kinds : List String) : b.kindIn kinds = a.kindIn kinds := by
  rw [kindIn, kindIn, h.kind?_eq]

theorem lines?_eq (h : a.Remarked b) : b.lines? = a.lines? := by
  cases h with
  | same => rfl
  | list => rfl
  | node typed kind loc keys values =>
    rw [lines?, lines?, Document.get, Document.get, Document.field?, Document.field?, loc]

/-! ### Values that are not read as text -/

/-- A node has a field, its kind. -/
theorem isEmpty_of_isNode (h : (Document.object fields).isNode) : fields.isEmpty = false := by
  cases fields with
  | nil => cases h
  | cons field rest => rfl

/-- For a rule that does not look inside, trees with other remarks are the same. -/
theorem resembles (h : a.Remarked b) : a.Resembles b := by
  cases h with
  | same =>
    cases a with
    | list items => exact .list rfl
    | object fields => exact .object rfl rfl
    | _ => exact .scalar rfl
  | list each => exact .list each.length_eq.symm
  | node typed kind loc keys values =>
    have h := Remarked.node typed kind loc keys values
    refine .object ?_ (h.kindIn_eq _)
    rw [isEmpty_of_isNode typed, isEmpty_of_isNode (h.isNode_eq ▸ typed)]

theorem sameAnywhere_eq {x y : Document} (h : a.Remarked b) (h' : x.Remarked y) :
    b.sameAnywhere y = a.sameAnywhere x := by
  cases h with
  | same =>
    cases h' with
    | same => rfl
    | _ => cases a <;> rfl
  | _ => rfl

/-- The first element of a value that is no object is the same up to remarks. -/
theorem first (h : a.Remarked b) : Agree Remarked a.first b.first := by
  have hsame : ∀ x : Except Fault Document, Agree Remarked x x := by
    rintro (e | d)
    · exact .error e
    · exact .ok (.same d)
  cases h with
  | same => exact hsame _
  | list each =>
    cases each with
    | nil => exact hsame _
    | cons head tail => exact .ok head
  | node => exact hsame (.error .elementOfObject)

/-- A text inside a record is the same. -/
theorem getIn_eq (h : a.Remarked b) {key name : String} (hkey : key ∉ remarkKeys)
    (hname : name ∉ remarkKeys) (scalar : ((a.get key).get name).isCollection = false) :
    b.getIn key name = a.getIn key name :=
  (h.get hkey).resembles.getIn_eq ((h.get hkey).field?_eq hname scalar)

end Remarked

end Document

/-! ### Children -/

/-- Children at the same place whose nodes differ in remarks only. -/
structure Child.Remarked (c c' : Child) : Prop where
  key : c.key = c'.key
  direct : c.direct = c'.direct
  node : c.node.Remarked c'.node

namespace Document.Remarked

variable {a b : Document}

theorem childrenAt (h : a.Remarked b) (key : String) :
    List.Forall₂ Child.Remarked (Document.childrenAt key a) (Document.childrenAt key b) := by
  cases h with
  | same => exact List.forall₂_same.mpr fun c _ => ⟨rfl, rfl, .same _⟩
  | list each =>
    simp only [Document.childrenAt]
    -- Items that are no nodes are passed over in both lists.
    induction each with
    | nil => exact .nil
    | cons hitem hrest ih =>
      rw [List.filter_cons, List.filter_cons, hitem.isNode_eq]
      split
      · exact .cons ⟨rfl, rfl, hitem⟩ ih
      · exact ih
  | node typed kind loc keys values =>
    have h := Remarked.node typed kind loc keys values
    rw [Document.childrenAt, Document.childrenAt, if_pos typed, if_pos (h.isNode_eq ▸ typed)]
    exact .cons ⟨rfl, rfl, h⟩ .nil

theorem childrenIn {fields fields' : List (String × Document)}
    (keys : fields.map Prod.fst = fields'.map Prod.fst)
    (values : List.Forall₂ Remarked (fields.map Prod.snd) (fields'.map Prod.snd))
    (keep : String → Bool) :
    List.Forall₂ Child.Remarked (Document.childrenIn keep fields)
      (Document.childrenIn keep fields') := by
  induction fields generalizing fields' with
  | nil =>
    cases fields' with
    | nil => exact .nil
    | cons field rest => cases keys
  | cons field rest ih =>
    cases fields' with
    | nil => cases keys
    | cons field' rest' =>
      obtain ⟨hkey, hkeys⟩ := List.cons.inj keys
      cases values with
      | cons hvalue hvalues =>
        rw [Document.childrenIn, Document.childrenIn, ← hkey]
        split
        · exact List.rel_append (hvalue.childrenAt field.1) (ih hkeys hvalues)
        · exact ih hkeys hvalues

/-- The children are the same up to remarks, in the same order. -/
theorem children (h : a.Remarked b) (ignored : List String) :
    List.Forall₂ Child.Remarked (a.children ignored) (b.children ignored) := by
  cases h with
  | same => exact List.forall₂_same.mpr fun c _ => ⟨rfl, rfl, .same _⟩
  | list => exact .nil
  | @node fields fields' typed kind loc keys values =>
    rw [← children_childFields fields, ← children_childFields fields']
    exact childrenIn keys values _

end Document.Remarked

end CodeMetrics
