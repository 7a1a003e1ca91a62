import CodeMetrics.Proofs.Document.Field
import CodeMetrics.Proofs.Result
import Mathlib.Data.List.Forall2
import Mathlib.Data.List.Nodup

/-!
# `CodeMetrics.Proofs.Document.Reordering`: documents that differ in the order of keys

Two documents are reorderings of each other if the fields of objects stand in another order, at
any depth. Lists keep their order (`Document.Reordered`).

What is read at a document is then the same, or again a reordering, as long as no object has
a key twice. Reading goes from a document to its fields and further down, so the facts that
have to hold at every depth come with the reordering: `Document.Alike p` joins it with the
distinct keys and with a property `p` of every object. It passes to fields (`Alike.get`) and to
children (`Alike.children`), where the children are in another order, too.
-/

set_option autoImplicit false

namespace CodeMetrics

namespace Document

/-! ### Reorderings -/

/-- The second document is the first with the fields of objects in another order. -/
inductive Reordered : Document → Document → Prop
  | null : Reordered .null .null
  | bool (value : Bool) : Reordered (.bool value) (.bool value)
  | int (value : Int) : Reordered (.int value) (.int value)
  | float (value : Float) : Reordered (.float value) (.float value)
  | string (text : String) : Reordered (.string text) (.string text)
  | list {items items' : List Document} (same : List.Forall₂ Reordered items items') :
      Reordered (.list items) (.list items')
  | object {fields moved fields' : List (String × Document)} (order : fields.Perm moved)
      (keys : moved.map Prod.fst = fields'.map Prod.fst)
      (values : List.Forall₂ Reordered (moved.map Prod.snd) (fields'.map Prod.snd)) :
      Reordered (.object fields) (.object fields')

/-- Lists of the same length are empty together. -/
theorem isEmpty_eq_of_length {α β : Type} {l : List α} {m : List β} (h : l.length = m.length) :
    l.isEmpty = m.isEmpty := by
  cases l <;> cases m <;> simp_all

namespace Reordered

mutual

/-- A document is a reordering of itself. -/
theorem refl : (d : Document) → d.Reordered d
  | .null => .null
  | .bool value => .bool value
  | .int value => .int value
  | .float value => .float value
  | .string text => .string text
  | .list items => .list (reflItems items)
  | .object fields => .object (.refl fields) rfl (reflFields fields)

theorem reflItems : (items : List Document) → List.Forall₂ Reordered items items
  | [] => .nil
  | d :: rest => .cons (refl d) (reflItems rest)

theorem reflFields : (fields : List (String × Document)) →
    List.Forall₂ Reordered (fields.map Prod.snd) (fields.map Prod.snd)
  | [] => .nil
  | (_, d) :: rest => .cons (refl d) (reflFields rest)

end

variable {a b : Document}

/-- A value that is neither a list nor an object has no other order. -/
theorem eq_of_scalar (h : a.Reordered b) (scalar : a.isCollection = false) : a = b := by
  cases h with
  | list => cases scalar
  | object => cases scalar
  | _ => rfl

/-- Reorderings have as many fields. -/
theorem length_fields {fields fields' : List (String × Document)}
    (h : (Document.object fields).Reordered (.object fields')) :
    fields.length = fields'.length := by
  cases h with
  | object order keys values =>
    have hlength := congrArg List.length keys
    rw [List.length_map, List.length_map] at hlength
    rw [order.length_eq, hlength]

theorem isObject_eq (h : a.Reordered b) : a.isObject = b.isObject := by
  cases h <;> rfl

theorem isNull_eq (h : a.Reordered b) : a.isNull = b.isNull := by
  cases h <;> rfl

theorem isOneOf_eq (h : a.Reordered b) (texts : List String) :
    a.isOneOf texts = b.isOneOf texts := by
  cases h <;> rfl

theorem line?_eq (h : a.Reordered b) : a.line? = b.line? := by
  cases h <;> rfl

theorem truthy_eq (h : a.Reordered b) : a.truthy = b.truthy := by
  cases h with
  | list same => rw [truthy, truthy, isEmpty_eq_of_length same.length_eq]
  | object order keys values =>
    rw [truthy, truthy, isEmpty_eq_of_length (length_fields (.object order keys values))]
  | _ => rfl

theorem count_eq (h : a.Reordered b) : a.count = b.count := by
  cases h with
  | list same => rw [count, count, same.length_eq]
  | object order keys values => rw [count, count, length_fields (.object order keys values)]
  | _ => rfl

/-- Collections are never the same as what stands elsewhere. -/
theorem sameAnywhere_eq {c d : Document} (h : a.Reordered b) (h' : c.Reordered d) :
    a.sameAnywhere c = b.sameAnywhere d := by
  cases h <;> cases h' <;> rfl

end Reordered

/-! ### Every object inside -/

mutual

/-- Whether a test holds of the fields of every object, at any depth. -/
def everyObject (p : List (String × Document) → Bool) : Document → Bool
  | .list items => everyItem p items
  | .object fields => p fields && everyField p fields
  | _ => true

/-- Whether a test holds of the fields of every object inside some items. -/
def everyItem (p : List (String × Document) → Bool) : List Document → Bool
  | [] => true
  | d :: rest => everyObject p d && everyItem p rest

/-- Whether a test holds of the fields of every object inside the values of some fields. -/
def everyField (p : List (String × Document) → Bool) : List (String × Document) → Bool
  | [] => true
  | (_, d) :: rest => everyObject p d && everyField p rest

end

section

variable {p : List (String × Document) → Bool}

/-- What holds inside some items is what holds inside each of them. -/
theorem everyItem_iff {items : List Document} :
    everyItem p items ↔ ∀ d ∈ items, d.everyObject p := by
  induction items with
  | nil => simp [everyItem]
  | cons first rest ih => rw [everyItem, Bool.and_eq_true, ih, List.forall_mem_cons]

/-- What holds inside some fields is what holds inside the value of each of them. -/
theorem everyField_iff {fields : List (String × Document)} :
    everyField p fields ↔ ∀ field ∈ fields, field.2.everyObject p := by
  induction fields with
  | nil => simp [everyField]
  | cons first rest ih => rw [everyField, Bool.and_eq_true, ih, List.forall_mem_cons]

end

/-- No key stands twice. -/
def distinctKeys (fields : List (String × Document)) : Bool :=
  decide (fields.map Prod.fst).Nodup

/-! ### Reading a field -/

/-- The order of fields does not matter for what is found. -/
theorem lookup_of_perm {fields moved : List (String × Document)} (order : fields.Perm moved)
    (distinct : (fields.map Prod.fst).Nodup) (key : String) :
    lookup key fields = lookup key moved := by
  have distinct' : (moved.map Prod.fst).Nodup := (order.map Prod.fst).nodup_iff.mp distinct
  refine Option.ext fun value => ⟨fun h => ?_, fun h => ?_⟩
  · exact lookup_of_mem distinct' (order.mem_iff.mp (mem_of_lookup h))
  · exact lookup_of_mem distinct (order.mem_iff.mpr (mem_of_lookup h))

/-- Under equal keys, related values are found. -/
theorem lookup_of_forall₂ {R : Document → Document → Prop}
    {fields fields' : List (String × Document)}
    (keys : fields.map Prod.fst = fields'.map Prod.fst)
    (values : List.Forall₂ R (fields.map Prod.snd) (fields'.map Prod.snd)) (key : String) :
    Option.Rel R (lookup key fields) (lookup key fields') := by
  induction fields generalizing fields' with
  | nil =>
    cases fields' with
    | nil => exact .none
    | cons field' rest' => cases values
  | cons field rest ih =>
    cases fields' with
    | nil => cases values
    | cons field' rest' =>
      obtain ⟨hkey, hkeys⟩ := List.cons.inj keys
      obtain ⟨hvalue, hvalues⟩ := List.forall₂_cons.mp values
      rw [lookup, lookup, hkey]
      split
      · exact .some hvalue
      · exact ih hkeys hvalues

/-! ### Documents that are alike -/

/-- The second document is a reordering of the first, where no object has a key twice and the
property `p` holds of every object. -/
structure Alike (p : List (String × Document) → Bool) (a b : Document) : Prop where
  reordered : a.Reordered b
  distinct : a.everyObject distinctKeys
  every : a.everyObject p

namespace Alike

variable {p : List (String × Document) → Bool} {a b : Document}

theorem null : Alike p .null .null := ⟨.null, rfl, rfl⟩

/-- Items are alike one by one. -/
theorem items {xs ys : List Document} (h : Alike p (.list xs) (.list ys)) :
    List.Forall₂ (Alike p) xs ys := by
  obtain ⟨hreordered, hdistinct, hevery⟩ := h
  cases hreordered with
  | list same =>
    rw [everyObject] at hdistinct hevery
    refine (List.forall₂_iff_zip.mpr ⟨same.length_eq, fun {x y} hxy => ?_⟩)
    have hx := (List.of_mem_zip hxy).1
    exact ⟨(List.forall₂_iff_zip.mp same).2 hxy, everyItem_iff.mp hdistinct x hx,
      everyItem_iff.mp hevery x hx⟩

/-- Fields are alike, after some of them have moved. -/
theorem fields {fields fields' : List (String × Document)}
    (h : Alike p (.object fields) (.object fields')) :
    ∃ moved : List (String × Document), fields.Perm moved ∧
      moved.map Prod.fst = fields'.map Prod.fst ∧
      List.Forall₂ (Alike p) (moved.map Prod.snd) (fields'.map Prod.snd) := by
  obtain ⟨hreordered, hdistinct, hevery⟩ := h
  cases hreordered with
  | object order keys values =>
    rw [everyObject, Bool.and_eq_true] at hdistinct hevery
    refine ⟨_, order, keys, List.forall₂_iff_zip.mpr ⟨values.length_eq, fun {x y} hxy => ?_⟩⟩
    obtain ⟨field, hfield, rfl⟩ := List.mem_map.mp (List.of_mem_zip hxy).1
    have hmem := order.mem_iff.mpr hfield
    exact ⟨(List.forall₂_iff_zip.mp values).2 hxy, everyField_iff.mp hdistinct.2 _ hmem,
      everyField_iff.mp hevery.2 _ hmem⟩

/-- A field is in both documents or in none, and then the values are alike. -/
theorem field? (h : Alike p a b) (key : String) :
    Option.Rel (Alike p) (a.field? key) (b.field? key) := by
  cases h.reordered with
  | object order keys values =>
    obtain ⟨moved, hmoved, hkeys, hvalues⟩ := h.fields
    have hdistinct := h.distinct
    rw [everyObject, Bool.and_eq_true, distinctKeys, decide_eq_true_eq] at hdistinct
    show Option.Rel (Alike p) (lookup key _) (lookup key _)
    rw [lookup_of_perm hmoved hdistinct.1]
    exact lookup_of_forall₂ hkeys hvalues key
  | _ => exact .none

/-- Where both are missing, both read as null. -/
theorem getD {x y : Option Document} (h : Option.Rel (Alike p) x y) :
    Alike p (x.getD .null) (y.getD .null) := by
  cases h with
  | some h => exact h
  | none => exact .null

/-- What is read under a key is alike. -/
theorem get (h : Alike p a b) (key : String) : Alike p (a.get key) (b.get key) :=
  getD (h.field? key)

theorem kind?_eq (h : Alike p a b) : a.kind? = b.kind? := by
  have htype := h.field? "type"
  unfold kind?
  generalize a.field? "type" = x, b.field? "type" = y at htype
  cases htype with
  | none => rfl
  | some h => cases h.reordered <;> rfl

theorem isNode_eq (h : Alike p a b) : a.isNode = b.isNode := by
  rw [isNode, isNode, h.kind?_eq]

theorem kindIn_eq (h : Alike p a b) (kinds : List String) : a.kindIn kinds = b.kindIn kinds := by
  rw [kindIn, kindIn, h.kind?_eq]

/-- A field that holds no list and no object is the same in both documents. -/
theorem get_eq (h : Alike p a b) {key : String} (scalar : (a.get key).isCollection = false) :
    a.get key = b.get key :=
  (h.get key).reordered.eq_of_scalar scalar

/-- A field that holds no list and no object is the same or missing in both documents. -/
theorem field?_eq (h : Alike p a b) {key : String} (scalar : (a.get key).isCollection = false) :
    a.field? key = b.field? key := by
  have hfield := h.field? key
  unfold Document.get at scalar
  generalize a.field? key = x, b.field? key = y at hfield scalar
  cases hfield with
  | none => rfl
  | some h => rw [h.reordered.eq_of_scalar scalar]

/-- A field of a record under a key is alike. A value that is not a record is none in either
document. -/
theorem getIn (h : Alike p a b) (key name : String) :
    Agree (Option.Rel (Alike p)) (a.getIn key name) (b.getIn key name) := by
  have hget := h.get key
  unfold Document.getIn Document.record
  rw [← hget.reordered.truthy_eq]
  cases htruthy : (a.get key).truthy with
  | false => exact .ok .none
  | true =>
    generalize a.get key = x, b.get key = y at hget
    cases hget.reordered with
    | object order keys values => exact .ok (hget.field? name)
    | _ => exact .error _

/-- A field of a record is the same in both documents if it holds no list and no object. -/
theorem getIn_eq (h : Alike p a b) {key name : String}
    (scalar : ((a.get key).get name).isCollection = false) :
    a.getIn key name = b.getIn key name := by
  have hget := h.get key
  unfold Document.getIn Document.record
  rw [← hget.reordered.truthy_eq]
  cases htruthy : (a.get key).truthy with
  | false => rfl
  | true =>
    generalize a.get key = x, b.get key = y at hget scalar
    cases hget.reordered with
    | object order keys values => exact congrArg Except.ok (hget.field?_eq scalar)
    | _ => rfl

/-- The first element is alike. -/
theorem first (h : Alike p a b) : Agree (Alike p) a.first b.first := by
  cases h.reordered with
  | list same =>
    cases h.items with
    | nil => exact .ok .null
    | cons hfirst hrest => exact .ok hfirst
  | string text =>
    show Agree (Alike p) (.ok _) (.ok _)
    cases text.toList with
    | nil => exact .ok .null
    | cons c rest => exact .ok ⟨.string _, rfl, rfl⟩
  | object order keys values => exact .error _
  | _ => exact .error _

theorem requireObject_eq (h : Alike p a b) : a.requireObject = b.requireObject := by
  rw [requireObject, requireObject, h.reordered.isObject_eq]

/-- The location of a node is alike, so the lines are the same. -/
theorem lines?_eq (h : Alike p a b) : a.lines? = b.lines? := by
  have hloc := h.get "loc"
  unfold lines?
  generalize a.get "loc" = x, b.get "loc" = y at hloc
  have hline : ∀ {v w : Option Document}, Option.Rel (Alike p) v w →
      line? (v.getD .null) = line? (w.getD .null) := fun h => (getD h).reordered.line?_eq
  cases hloc.reordered with
  | object order keys values =>
    refine Agree.eq ?_
    refine (hloc.getIn "start" "line").bind fun start start' hstart => ?_
    refine (hloc.getIn "end" "line").bind fun stop stop' hstop => ?_
    rw [hline hstart, hline hstop]
    exact .ok rfl
  | _ => rfl

end Alike

end Document

/-! ### Children -/

/-- Children that are alike hang under the same key. -/
structure Child.Alike (p : List (String × Document) → Bool) (c c' : Child) : Prop where
  key : c.key = c'.key
  direct : c.direct = c'.direct
  node : Document.Alike p c.node c'.node

/-- The second children are the first ones in another order, each of them alike. -/
def Child.AllAlike (p : List (String × Document) → Bool) (cs cs' : List Child) : Prop :=
  ∃ moved : List Child, cs.Perm moved ∧ List.Forall₂ (Child.Alike p) moved cs'

namespace Child.AllAlike

variable {p : List (String × Document) → Bool} {cs cs' : List Child}

theorem length_eq (h : AllAlike p cs cs') : cs.length = cs'.length := by
  obtain ⟨moved, order, same⟩ := h
  exact order.length_eq.trans same.length_eq

/-- The children under some of the keys are alike. -/
theorem filter (h : AllAlike p cs cs') (keep : String → Bool) :
    AllAlike p (cs.filter fun c => keep c.key) (cs'.filter fun c => keep c.key) := by
  obtain ⟨moved, order, same⟩ := h
  refine ⟨moved.filter fun c => keep c.key, order.filter _, ?_⟩
  clear order
  induction same with
  | nil => exact .nil
  | cons hchild hrest ih =>
    rw [List.filter_cons, List.filter_cons, hchild.key]
    split
    · exact .cons hchild ih
    · exact ih

end Child.AllAlike

namespace Document

namespace Alike

variable {p : List (String × Document) → Bool} {a b : Document}

/-- The children under one key are alike. -/
theorem childrenAt (h : Alike p a b) (key : String) :
    List.Forall₂ (Child.Alike p) (Document.childrenAt key a) (Document.childrenAt key b) := by
  cases h.reordered with
  | object order keys values =>
    unfold Document.childrenAt
    simp only [h.isNode_eq]
    split
    · exact .cons ⟨rfl, rfl, h⟩ .nil
    · exact .nil
  | @list items items' same =>
    have hitems := h.items
    clear h same
    show List.Forall₂ (Child.Alike p) ((items.filter isNode).map fun item => ⟨key, false, item⟩)
      ((items'.filter isNode).map fun item => ⟨key, false, item⟩)
    induction hitems with
    | nil => exact .nil
    | cons hitem hrest ih =>
      rw [List.filter_cons, List.filter_cons, hitem.isNode_eq]
      split
      · exact .cons ⟨rfl, rfl, hitem⟩ ih
      · exact ih
  | _ => exact .nil

/-- The children under equal keys are alike. -/
theorem childrenIn {fields fields' : List (String × Document)}
    (keys : fields.map Prod.fst = fields'.map Prod.fst)
    (values : List.Forall₂ (Alike p) (fields.map Prod.snd) (fields'.map Prod.snd))
    (keep : String → Bool) :
    List.Forall₂ (Child.Alike p) (Document.childrenIn keep fields)
      (Document.childrenIn keep fields') := by
  induction fields generalizing fields' with
  | nil =>
    cases fields' with
    | nil => exact .nil
    | cons field' rest' => cases values
  | cons field rest ih =>
    cases fields' with
    | nil => cases values
    | cons field' rest' =>
      obtain ⟨hkey, hkeys⟩ := List.cons.inj keys
      obtain ⟨hvalue, hvalues⟩ := List.forall₂_cons.mp values
      rw [Document.childrenIn, Document.childrenIn, hkey]
      split
      · exact List.rel_append (hvalue.childrenAt field'.1) (ih hkeys hvalues)
      · exact ih hkeys hvalues

/-- The children of a node are alike, in another order. -/
theorem children (h : Alike p a b) (ignored : List String) :
    Child.AllAlike p (a.children ignored) (b.children ignored) := by
  cases h.reordered with
  | object order keys values =>
    obtain ⟨moved, hmoved, hkeys, hvalues⟩ := h.fields
    refine ⟨Document.childrenIn _ moved, ?_, childrenIn hkeys hvalues _⟩
    show (Document.childrenIn _ _).Perm _
    rw [childrenIn_eq_flatMap, childrenIn_eq_flatMap]
    exact hmoved.flatMap_right _
  | _ => exact ⟨[], .refl [], .nil⟩

end Alike

/-! ### Setting a field -/

/-- The keys after setting a field. -/
theorem map_fst_assign (key : String) (value : Document) (fields : List (String × Document)) :
    (assign key value fields).map Prod.fst =
      if key ∈ fields.map Prod.fst then fields.map Prod.fst else fields.map Prod.fst ++ [key] := by
  induction fields with
  | nil => rfl
  | cons field rest ih =>
    obtain ⟨name, old⟩ := field
    by_cases hname : name = key
    · simp [assign, hname]
    · have hne : key ≠ name := Ne.symm hname
      simp only [assign, hname, if_false, List.map_cons, ih, List.mem_cons, hne, false_or]
      split <;> rfl

/-- No key stands twice after setting a field. -/
theorem nodup_assign {key : String} {fields : List (String × Document)}
    (distinct : (fields.map Prod.fst).Nodup) (value : Document) :
    ((assign key value fields).map Prod.fst).Nodup := by
  rw [map_fst_assign]
  split
  · exact distinct
  · rename_i hkey
    exact List.nodup_append.mpr ⟨distinct, List.nodup_singleton key, by
      intro name hname other hother
      rw [List.mem_singleton.mp hother]
      rintro rfl
      exact hkey hname⟩

/-- A field after setting one is the new one, or was there before. -/
theorem mem_assign {key : String} {value : Document} {fields : List (String × Document)}
    {field : String × Document} (h : field ∈ assign key value fields) :
    field = (key, value) ∨ field ∈ fields := by
  induction fields with
  | nil => exact .inl (List.mem_singleton.mp h)
  | cons first rest ih =>
    obtain ⟨name, old⟩ := first
    rw [assign] at h
    split at h
    · rcases List.mem_cons.mp h with h | h
      · exact .inl h
      · exact .inr (List.mem_cons_of_mem _ h)
    · rcases List.mem_cons.mp h with rfl | h
      · exact .inr List.mem_cons_self
      · rcases ih h with h | h
        · exact .inl h
        · exact .inr (List.mem_cons_of_mem _ h)

/-- Setting a field of moved fields. -/
theorem assign_perm {key : String} {value : Document} {fields moved : List (String × Document)}
    (order : fields.Perm moved) (distinct : (fields.map Prod.fst).Nodup) :
    (assign key value fields).Perm (assign key value moved) := by
  induction order with
  | nil => exact .refl _
  | cons field order ih =>
    obtain ⟨name, old⟩ := field
    rw [List.map_cons, List.nodup_cons] at distinct
    rw [assign, assign]
    split
    · exact order.cons _
    · exact (ih distinct.2).cons _
  | swap field other rest =>
    obtain ⟨name, old⟩ := field
    obtain ⟨name', old'⟩ := other
    -- With two fields of one name the first would be set, and which one that is depends on the
    -- order.
    have hne : name' ≠ name := by
      simp only [List.map_cons, List.nodup_cons, List.mem_cons, not_or] at distinct
      exact distinct.1.1
    simp only [assign]
    by_cases hname : name = key
    · have hname' : name' ≠ key := hname ▸ hne
      simp only [hname, hname', if_true, if_false]
      exact .swap _ _ _
    · by_cases hname' : name' = key
      · simp only [hname, hname', if_true, if_false]
        exact .swap _ _ _
      · simp only [hname, hname', if_false]
        exact .swap _ _ _
  | trans order order' ih ih' =>
    exact (ih distinct).trans (ih' ((order.map Prod.fst).nodup_iff.mp distinct))

/-- Setting a field in two lists with equal keys. -/
theorem assign_forall₂ {R : Document → Document → Prop} (key : String) {value value' : Document}
    (hvalue : R value value') {fields fields' : List (String × Document)}
    (keys : fields.map Prod.fst = fields'.map Prod.fst)
    (values : List.Forall₂ R (fields.map Prod.snd) (fields'.map Prod.snd)) :
    (assign key value fields).map Prod.fst = (assign key value' fields').map Prod.fst ∧
    List.Forall₂ R ((assign key value fields).map Prod.snd)
      ((assign key value' fields').map Prod.snd) := by
  refine ⟨by rw [map_fst_assign, map_fst_assign, keys], ?_⟩
  induction fields generalizing fields' with
  | nil =>
    cases fields' with
    | nil => exact .cons hvalue .nil
    | cons field' rest' => cases values
  | cons field rest ih =>
    cases fields' with
    | nil => cases values
    | cons field' rest' =>
      obtain ⟨hkey, hkeys⟩ := List.cons.inj keys
      obtain ⟨hold, holds⟩ := List.forall₂_cons.mp values
      rw [assign, assign, hkey]
      split
      · exact .cons hvalue holds
      · exact .cons hold (ih hkeys holds)

/-- Setting a text in reorderings gives reorderings. -/
theorem Reordered.set {a b : Document} (h : a.Reordered b) (distinct : a.everyObject distinctKeys)
    (key text : String) : (a.set key (.string text)).Reordered (b.set key (.string text)) := by
  cases h with
  | object order keys values =>
    rw [everyObject, Bool.and_eq_true, distinctKeys, decide_eq_true_eq] at distinct
    obtain ⟨hkeys, hvalues⟩ := assign_forall₂ key (Reordered.string text) keys values
    exact .object (assign_perm order distinct.1) hkeys hvalues
  | list same => exact .list same
  | null => exact .null
  | bool value => exact .bool value
  | int value => exact .int value
  | float value => exact .float value
  | string value => exact .string value

/-- No object has a key twice after setting a text. -/
theorem distinct_set {a : Document} (distinct : a.everyObject distinctKeys) (key text : String) :
    (a.set key (.string text)).everyObject distinctKeys := by
  cases a with
  | object fields =>
    rw [everyObject, Bool.and_eq_true, distinctKeys, decide_eq_true_eq] at distinct
    show (Document.object (assign key (.string text) fields)).everyObject distinctKeys
    rw [everyObject, Bool.and_eq_true, distinctKeys, decide_eq_true_eq]
    refine ⟨nodup_assign distinct.1 _, everyField_iff.mpr fun field hfield => ?_⟩
    rcases mem_assign hfield with rfl | hfield
    · rfl
    · exact everyField_iff.mp distinct.2 field hfield
  | _ => exact distinct

end Document

end CodeMetrics
