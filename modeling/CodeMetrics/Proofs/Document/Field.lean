import CodeMetrics.Node
import Mathlib.Data.List.Basic

/-!
# `CodeMetrics.Proofs.Document.Field`: the fields of an object and the children in them

What is found under a key when fields are put together, left out or set, and which children the
fields of a node hold. A child is the value of a field or an item of a list there
(`of_mem_childrenAt`), so what holds of all that is inside a node is handed down to its children
field by field (`exists_field_of_mem_children`).
-/

set_option autoImplicit false

namespace CodeMetrics.Document

variable {fields : List (String × Document)}

/-! ### Looking up a key -/

/-- A value that is found is among the fields. -/
theorem mem_of_lookup {key : String} {value : Document}
    (h : lookup key fields = some value) : (key, value) ∈ fields := by
  induction fields with
  | nil => cases h
  | cons field rest ih =>
    obtain ⟨name, d⟩ := field
    rw [lookup] at h
    split at h
    · rename_i hname
      cases h
      rw [hname]
      exact List.mem_cons_self
    · exact List.mem_cons_of_mem _ (ih h)

/-- If no key stands twice, the value of each field is found under its key. -/
theorem lookup_of_mem {key : String} {value : Document}
    (distinct : (fields.map Prod.fst).Nodup) (h : (key, value) ∈ fields) :
    lookup key fields = some value := by
  induction fields with
  | nil => cases h
  | cons field rest ih =>
    rw [List.map_cons, List.nodup_cons] at distinct
    rcases List.mem_cons.mp h with rfl | h
    · simp [lookup]
    · have hkey : field.1 ≠ key := by
        intro hkey
        exact distinct.1 (hkey ▸ List.mem_map_of_mem (f := Prod.fst) h)
      simp [lookup, hkey, ih distinct.2 h]

theorem lookup_append (key : String) (a b : List (String × Document)) :
    lookup key (a ++ b) = (lookup key a).or (lookup key b) := by
  induction a with
  | nil => rfl
  | cons field rest ih =>
    rw [List.cons_append, lookup, lookup, ih]
    split <;> rfl

/-- A key that is kept is looked up as before. -/
theorem lookup_filter (keep : String → Bool) {key : String} (h : keep key) :
    lookup key (fields.filter fun field => keep field.1) = lookup key fields := by
  induction fields with
  | nil => rfl
  | cons field rest ih =>
    rw [List.filter_cons, lookup]
    by_cases hkey : field.1 = key
    · rw [if_pos (hkey ▸ h), lookup, if_pos hkey, if_pos hkey]
    · rw [if_neg hkey, ← ih]
      split
      · rw [lookup, if_neg hkey]
      · rfl

/-- A key that is not kept is not found. -/
theorem lookup_filter_of_not (keep : String → Bool) {key : String} (h : ¬ keep key) :
    lookup key (fields.filter fun field => keep field.1) = none := by
  induction fields with
  | nil => rfl
  | cons field rest ih =>
    rw [List.filter_cons]
    split
    · rename_i hkeep
      have hkey : field.1 ≠ key := fun hkey => h (hkey ▸ hkeep)
      rw [lookup, if_neg hkey, ih]
    · exact ih

/-- A field that is set is found, and all others as before. -/
theorem lookup_assign (key name : String) (value : Document) :
    lookup key (assign name value fields) = if name = key then some value else lookup key fields := by
  induction fields with
  | nil => rfl
  | cons field rest ih =>
    obtain ⟨first, old⟩ := field
    rw [assign]
    split
    · rename_i hfirst
      subst hfirst
      rw [lookup, lookup]
      split <;> rfl
    · rename_i hfirst
      rw [lookup, ih, lookup]
      by_cases hname : name = key
      · subst hname
        rw [if_neg hfirst, if_pos rfl, if_pos rfl]
      · rw [if_neg hname, if_neg hname]

/-- Fields with distinct keys are given by what is found under the keys. -/
theorem eq_map_lookup (h : (fields.map Prod.fst).Nodup) :
    fields = (fields.map Prod.fst).map fun key => (key, (lookup key fields).getD .null) := by
  rw [List.map_map]
  refine (List.map_id fields).symm.trans (List.map_congr_left fun field hfield => ?_)
  rw [Function.comp, lookup_of_mem h hfield]
  rfl

/-- The other fields of an object do not depend on the value of a field. -/
theorem field?_of_ne {before after : List (String × Document)} {key other : String}
    (hkey : key ≠ other) (value value' : Document) :
    (object (before ++ (other, value) :: after)).field? key =
      (object (before ++ (other, value') :: after)).field? key := by
  show lookup key (before ++ (other, value) :: after) =
    lookup key (before ++ (other, value') :: after)
  rw [lookup_append, lookup_append, lookup, lookup, if_neg hkey.symm, if_neg hkey.symm]

/-! ### The children under a key -/

/-- A child hangs under the key that it is found under, and it is a node: the value there or an item
of a list. -/
theorem of_mem_childrenAt {key : String} {value : Document} {c : Child}
    (h : c ∈ childrenAt key value) :
    c.key = key ∧ c.node.isNode ∧
      (c.node = value ∨ ∃ items, value = .list items ∧ c.node ∈ items) := by
  unfold childrenAt at h
  split at h
  · split at h
    · rename_i hnode
      cases List.mem_singleton.mp h
      exact ⟨rfl, hnode, .inl rfl⟩
    · cases h
  · rename_i items
    obtain ⟨item, hitem, rfl⟩ := List.mem_map.mp h
    obtain ⟨hmem, hnode⟩ := List.mem_filter.mp hitem
    exact ⟨rfl, hnode, .inr ⟨items, rfl, hmem⟩⟩
  · cases h

theorem key_of_mem_childrenAt {key : String} {value : Document} {c : Child}
    (h : c ∈ childrenAt key value) : c.key = key :=
  (of_mem_childrenAt h).1

/-! ### The children of a node -/

/-- The children of a node, key by key. -/
theorem childrenIn_eq_flatMap (keep : String → Bool) (fields : List (String × Document)) :
    childrenIn keep fields =
      fields.flatMap fun field => if keep field.1 then childrenAt field.1 field.2 else [] := by
  induction fields with
  | nil => rfl
  | cons field rest ih =>
    rw [childrenIn, List.flatMap_cons, ih]
    split <;> rfl

theorem childrenIn_append (keep : String → Bool) (a b : List (String × Document)) :
    childrenIn keep (a ++ b) = childrenIn keep a ++ childrenIn keep b := by
  simp only [childrenIn_eq_flatMap, List.flatMap_append]

/-- Children can be chosen by their keys after they are collected. -/
theorem filter_childrenIn (keep only : String → Bool) :
    (childrenIn keep fields).filter (fun c => only c.key) =
      childrenIn (fun key => keep key && only key) fields := by
  rw [childrenIn_eq_flatMap, childrenIn_eq_flatMap, List.filter_flatMap]
  congr 1
  funext field
  by_cases honly : only field.1
  · rw [honly, Bool.and_true]
    split
    · exact List.filter_eq_self.mpr fun c hc => by rwa [key_of_mem_childrenAt hc]
    · rfl
  · simp only [Bool.not_eq_true] at honly
    rw [honly, Bool.and_false]
    split
    · exact List.filter_eq_nil_iff.mpr fun c hc => by simp [key_of_mem_childrenAt hc, honly]
    · rfl

/-- Fields whose keys are not asked for can be left out. -/
theorem childrenIn_filter (keep only : String → Bool) :
    childrenIn keep (fields.filter fun field => only field.1) =
      childrenIn (fun key => keep key && only key) fields := by
  induction fields with
  | nil => rfl
  | cons field rest ih =>
    rw [List.filter_cons, childrenIn]
    split
    · rename_i honly
      rw [childrenIn, ih, honly, Bool.and_true]
    · rename_i honly
      rw [Bool.eq_false_iff.mpr honly, Bool.and_false]
      exact ih

/-- Only fields whose keys are asked for have children that count. -/
theorem childrenIn_eq_filter (keep : String → Bool) :
    childrenIn keep fields =
      (fields.filter fun field => keep field.1).flatMap fun field => childrenAt field.1 field.2 := by
  induction fields with
  | nil => rfl
  | cons field rest ih =>
    rw [childrenIn, List.filter_cons]
    split
    · rw [List.flatMap_cons, ih]
    · exact ih

/-- Passing over keys leaves out the children under them. -/
theorem children_eq_filter (d : Document) (ignored : List String) :
    d.children ignored = (d.children []).filter fun c => !ignored.contains c.key := by
  cases d with
  | object fields =>
    rw [children, children, filter_childrenIn _ fun key => !ignored.contains key]
    simp
  | _ => rfl

/-- A child hangs under a field that can hold children. -/
theorem exists_field_of_mem_children {ignored : List String} {c : Child}
    (h : c ∈ (object fields).children ignored) :
    ∃ field ∈ fields, field.1 ∉ nonChildKeys ∧ c ∈ childrenAt field.1 field.2 := by
  rw [children, childrenIn_eq_flatMap, List.mem_flatMap] at h
  obtain ⟨field, hfield, hc⟩ := h
  split at hc
  · rename_i hkeep
    simp only [Bool.and_eq_true, Bool.not_eq_true', List.contains_eq_mem,
      decide_eq_false_iff_not] at hkeep
    exact ⟨field, hfield, hkeep.1, hc⟩
  · cases hc

/-- No child hangs under a key that holds no children. -/
theorem key_of_mem_children {d : Document} {ignored : List String} {c : Child}
    (h : c ∈ d.children ignored) : c.key ∉ nonChildKeys := by
  cases d with
  | object fields =>
    obtain ⟨field, -, hkey, hc⟩ := exists_field_of_mem_children h
    rwa [key_of_mem_childrenAt hc]
  | _ => cases h

/-- Only nodes are children. -/
theorem isNode_of_mem_children {d : Document} {ignored : List String} {c : Child}
    (h : c ∈ d.children ignored) : c.node.isNode := by
  cases d with
  | object fields =>
    obtain ⟨field, -, -, hc⟩ := exists_field_of_mem_children h
    exact (of_mem_childrenAt hc).2.1
  | _ => cases h

/-- What is found under a key that can hold children are children. -/
theorem mem_children_of_get {key : String} (hkey : key ∉ nonChildKeys) {c : Child}
    (hc : c ∈ childrenAt key ((Document.object fields).get key)) :
    c ∈ (Document.object fields).children [] := by
  rw [get, field?] at hc
  cases hlookup : lookup key fields with
  | none =>
    rw [hlookup] at hc
    cases hc
  | some value =>
    rw [hlookup] at hc
    rw [children, childrenIn_eq_flatMap, List.mem_flatMap]
    refine ⟨(key, value), mem_of_lookup hlookup, ?_⟩
    rwa [if_pos (by simpa using hkey)]

/-- A key that no child hangs under holds no child. -/
theorem childrenAt_get_eq_nil {key : String} (hkey : key ∉ nonChildKeys)
    (h : ∀ c ∈ (Document.object fields).children [], c.key ≠ key) :
    childrenAt key ((Document.object fields).get key) = [] :=
  List.eq_nil_iff_forall_not_mem.mpr fun c hc =>
    h c (mem_children_of_get hkey hc) (key_of_mem_childrenAt hc)

/-- The children of an object are those under one of its keys, between those that stand before and
after. -/
theorem children_split {before after : List (String × Document)} {key : String}
    (hkey : key ∉ nonChildKeys) (value : Document) :
    (object (before ++ (key, value) :: after)).children [] =
      (object before).children [] ++ childrenAt key value ++ (object after).children [] := by
  simp [children, childrenIn_append, childrenIn, hkey]

/-- Passing over fewer keys leaves more children. -/
theorem children_sublist {ignored fewer : List String} (h : fewer ⊆ ignored) (d : Document) :
    (d.children ignored).Sublist (d.children fewer) := by
  rw [children_eq_filter d ignored, children_eq_filter d fewer]
  apply List.monotone_filter_right
  intro c hc
  simp only [Bool.not_eq_true', List.contains_eq_mem, decide_eq_false_iff_not] at hc ⊢
  exact fun hmem => hc (h hmem)

end CodeMetrics.Document
