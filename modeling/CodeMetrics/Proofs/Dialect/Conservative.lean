import CodeMetrics.Proofs.Dialect.Table
import CodeMetrics.Proofs.Document.Field
import CodeMetrics.Proofs.Traversal.Record
import CodeMetrics.Proofs.Traversal.Strictness

/-!
# `CodeMetrics.Proofs.Dialect.Conservative`: extensions leave other trees alone

A dialect that is extended reads a tree as before if no node of the tree is of a kind that the
extension names. Only the name of the dialect is another one, and it shows where a kind is
unknown to both: in the error of a strict traversal (`Error.inDialect`) and in the warnings of a
tolerant one (`Walk.Retold`).

The reason is that a traversal asks a dialect only for the rules of the kinds that occur in the tree
(`Document.kinds`). So the statement is proved for any two dialects that agree on those kinds
(`Dialect.walk_retold`).
-/

set_option autoImplicit false

namespace CodeMetrics

/-! ### The kinds of a tree -/

namespace Document

mutual

/-- The kinds of all nodes inside a document, at any depth. -/
def kinds : Document → List String
  | .list items => kindsOfItems items
  | .object fields => (object fields).kind?.toList ++ kindsOfFields fields
  | _ => []

/-- The kinds of all nodes inside some items. -/
def kindsOfItems : List Document → List String
  | [] => []
  | item :: rest => item.kinds ++ kindsOfItems rest

/-- The kinds of all nodes inside the values of some fields. -/
def kindsOfFields : List (String × Document) → List String
  | [] => []
  | (_, value) :: rest => value.kinds ++ kindsOfFields rest

end

/-- The kind of a node is one of those inside it. -/
theorem mem_kinds_of_kind? {d : Document} {kind : String} (h : d.kind? = some kind) :
    kind ∈ d.kinds := by
  cases d with
  | object fields => simp [kinds, h]
  | _ => cases h

theorem kinds_subset_kindsOfItems {items : List Document} {item : Document} (h : item ∈ items) :
    item.kinds ⊆ kindsOfItems items := by
  induction items with
  | nil => cases h
  | cons first rest ih =>
    rw [kindsOfItems]
    rcases List.mem_cons.mp h with rfl | h
    · exact List.subset_append_left _ _
    · exact List.subset_append_of_subset_right _ (ih h)

theorem kinds_subset_kindsOfFields {fields : List (String × Document)} {field : String × Document}
    (h : field ∈ fields) : field.2.kinds ⊆ kindsOfFields fields := by
  induction fields with
  | nil => cases h
  | cons first rest ih =>
    rw [kindsOfFields]
    rcases List.mem_cons.mp h with rfl | h
    · exact List.subset_append_left _ _
    · exact List.subset_append_of_subset_right _ (ih h)

/-- A child has no other kinds inside than its parent. -/
theorem kinds_subset_of_mem_children {d : Document} {ignored : List String} {c : Child}
    (h : c ∈ d.children ignored) : c.node.kinds ⊆ d.kinds := by
  cases d with
  | object fields =>
    obtain ⟨field, hfield, -, hc⟩ := exists_field_of_mem_children h
    have hvalue : c.node.kinds ⊆ field.2.kinds := by
      rcases (of_mem_childrenAt hc).2.2 with heq | ⟨items, heq, hmem⟩
      · rw [heq]
        exact List.Subset.refl _
      · rw [heq, kinds]
        exact kinds_subset_kindsOfItems hmem
    rw [kinds]
    apply List.subset_append_of_subset_right
    exact List.Subset.trans hvalue (kinds_subset_kindsOfFields hfield)
  | _ => cases h

end Document

/-! ### Told by another dialect -/

/-- The error that another dialect gives in place of one: unsupported syntax is told under the name
of the dialect, and every other error is the same. -/
def Error.inDialect (name : String) : Error → Error
  | .unsupportedSyntax kind _ first last => .unsupportedSyntax kind name first last
  | error => error

/-- Two warnings about the same unknown kind at the same lines, each told by one of two dialects. -/
def Diagnostic.Retold (d d' : Dialect) (a b : Diagnostic) : Prop :=
  ∃ kind lines, a = d.warning kind lines ∧ b = d'.warning kind lines

/-- Two walks that differ in nothing but the dialect that tells the warnings. -/
structure Walk.Retold (d d' : Dialect) (v w : Walk) : Prop where
  tree : w.tree = v.tree
  found : w.found = v.found
  unsupported : w.unsupported = v.unsupported
  errors : List.Forall₂ (Diagnostic.Retold d d') v.errors w.errors

/-- Another error in place of that of two steps is another error in place of that of each step. -/
theorem mapError_bind {ε φ α β : Type} (g : ε → φ) (x : Except ε α) (f : α → Except ε β) :
    (x >>= f).mapError g = x.mapError g >>= fun a => (f a).mapError g := by
  cases x <;> rfl

/-- A fault is the same in every dialect. -/
theorem mapError_fault_inDialect {α : Type} (name : String) (x : Except Fault α) :
    (x.mapError Error.fault).mapError (Error.inDialect name) = x.mapError .fault := by
  cases x <;> rfl

namespace Yield

/-- The yield with other unknown kinds and records. -/
def noting (unknown : List (String × Diagnostic)) (y : Yield Gain) : Yield Gain :=
  { y with unknown }

/-- Two yields that differ only in the dialect that tells of the unknown kinds. -/
def Retold (d d' : Dialect) (y z : Yield Gain) : Prop :=
  ∃ unknown, z = y.noting unknown ∧
    List.Forall₂ (fun a b => b.1 = a.1 ∧ Diagnostic.Retold d d' a.2 b.2) y.unknown unknown

namespace Retold

variable {d d' : Dialect} {y y' z z' : Yield Gain}

/-- A yield without unknown kinds says nothing of a dialect. -/
theorem of_nil (h : y.unknown = []) : y.Retold d d' y :=
  ⟨[], by rw [noting, ← h], by rw [h]; exact .nil⟩

theorem append (h : y.Retold d d' z) (h' : y'.Retold d d' z') :
    (y ++ y').Retold d d' (z ++ z') := by
  obtain ⟨unknown, rfl, htold⟩ := h
  obtain ⟨unknown', rfl, htold'⟩ := h'
  exact ⟨unknown ++ unknown', rfl, List.rel_append htold htold'⟩

theorem enclose (h : y.Retold d d' z) (form : ScopeForm) (rule : Rule) (p : Placed)
    (lines : Lines Int) :
    (y.enclose Gain.ofFunction form rule p lines).Retold d d'
      (z.enclose Gain.ofFunction form rule p lines) := by
  obtain ⟨unknown, rfl, htold⟩ := h
  cases form with
  | classBody => exact ⟨unknown, rfl, htold⟩
  | function => exact ⟨unknown, rfl, htold⟩

end Retold

/-- A node that is unknown to both dialects. -/
theorem retold_ofUnknown (d d' : Dialect) (s : Settings) (node : Document) :
    Agree (Retold d d') ((ofUnknown d s node).mapError (·.inDialect d'.name))
      (ofUnknown d' s node) := by
  unfold ofUnknown Walk.unknownKind
  cases node.lines? with
  | error fault => exact .error _
  | ok lines =>
    cases hstrict : s.on .strict with
    | true => exact .error _
    | false =>
      have htold : Diagnostic.Retold d d' (d.warning (Walk.reportedKind node) lines)
          (d'.warning (Walk.reportedKind node) lines) := ⟨_, lines, rfl, rfl⟩
      exact .ok ⟨_, rfl, .cons ⟨rfl, htold⟩ .nil⟩

end Yield

/-! ### Dialects that agree on a tree -/

namespace Dialect

variable {d d' : Dialect} {s : Settings}

/-- Children that both dialects read alike. -/
theorem harvestAll_retold {lines : Lines Int} {parent : Document} {cs : List Child}
    (h : ∀ c ∈ cs, Agree (Yield.Retold d d')
      ((d.harvest s lines (c.placed parent)).mapError (·.inDialect d'.name))
      (d'.harvest s lines (c.placed parent))) :
    Agree (Yield.Retold d d') ((d.harvestAll s lines parent cs).mapError (·.inDialect d'.name))
      (d'.harvestAll s lines parent cs) := by
  induction cs with
  | nil =>
    rw [harvestAll, harvestAll]
    exact .ok (.of_nil rfl)
  | cons c rest ih =>
    rw [harvestAll, harvestAll]
    simp only [mapError_bind]
    apply (h c List.mem_cons_self).bind
    intro first first' hfirst
    apply (ih fun c hc => h c (List.mem_cons_of_mem _ hc)).bind
    intro others others' hothers
    exact .ok (hfirst.append hothers)

/-- Dialects with the same rules for all kinds inside a tree read the tree alike. -/
theorem harvest_retold {lines : Lines Int} {p : Placed}
    (h : ∀ kind ∈ p.node.kinds, d'.rule? kind = d.rule? kind) :
    Agree (Yield.Retold d d') ((d.harvest s lines p).mapError (·.inDialect d'.name))
      (d'.harvest s lines p) := by
  induction hsize : p.node.size using Nat.strongRecOn generalizing p lines with
  | ind size ih =>
    have hall : ∀ {ignored : List String} {cs : List Child},
        cs.Sublist (p.node.children ignored) → ∀ lines,
          Agree (Yield.Retold d d')
            ((d.harvestAll s lines p.node cs).mapError (·.inDialect d'.name))
            (d'.harvestAll s lines p.node cs) := by
      intro ignored cs hcs lines
      -- The kinds inside a child are among those inside the node.
      apply harvestAll_retold
      intro c hc
      have hmem := hcs.subset hc
      have hlt : c.node.size < size := hsize ▸ Document.size_lt_of_mem_children hmem
      exact ih _ hlt
        (fun kind hkind => h kind (Document.kinds_subset_of_mem_children hmem hkind)) rfl
    have hrules : d'.ruleFor p.node = d.ruleFor p.node := by
      rw [ruleFor, ruleFor]
      cases hkind : p.node.kind? with
      | none => rfl
      | some kind => exact h kind (Document.mem_kinds_of_kind? hkind)
    rw [harvest, harvest, hrules]
    cases hrule : d.ruleFor p.node with
    | none =>
      simp only [mapError_bind]
      apply (Yield.retold_ofUnknown d d' s p.node).bind
      intro own own' hown
      apply (hall (List.Sublist.refl _) lines).bind
      intro below below' hbelow
      exact .ok (hown.append hbelow)
    | some rule =>
      -- What a rule reads, and how it fails, does not depend on the dialect that has the rule.
      simp only [mapError_bind, mapError_fault_inDialect]
      apply Agree.bind_same
      intro c
      have hown : (Yield.ofContribution s c).Retold d d' (.ofContribution s c) := .of_nil rfl
      cases hopens : rule.opens with
      | none =>
        simp only [mapError_bind]
        apply (hall (List.Sublist.refl _) lines).bind
        intro below below' hbelow
        exact .ok (hown.append hbelow)
      | some form =>
        simp only [mapError_bind, mapError_fault_inDialect]
        apply (hall List.filter_sublist lines).bind
        intro outside outside' houtside
        apply Agree.bind_same
        intro found
        apply (hall List.filter_sublist _).bind
        intro inside inside' hinside
        exact .ok (hown.append (houtside.append (hinside.enclose form rule p _)))

end Dialect

/-- Entries that are told by two dialects are recorded for the same kinds, and the records are told
by the two dialects. -/
theorem Walk.noteAll_retold {d d' : Dialect} {entries entries' : List (String × Diagnostic)}
    (h : List.Forall₂ (fun a b => b.1 = a.1 ∧ Diagnostic.Retold d d' a.2 b.2) entries entries')
    (noted noted' : List Diagnostic × List String) (hkinds : noted'.2 = noted.2)
    (hrecords : List.Forall₂ (Diagnostic.Retold d d') noted.1 noted'.1) :
    (noteAll entries' noted').2 = (noteAll entries noted).2 ∧
      List.Forall₂ (Diagnostic.Retold d d') (noteAll entries noted).1
        (noteAll entries' noted').1 := by
  induction h generalizing noted noted' with
  | nil => exact ⟨hkinds, hrecords⟩
  | cons htold _ ih =>
    simp only [noteAll, List.foldl_cons, hkinds, htold.1]
    -- Both record the kind, or both know it already.
    split
    · exact ih noted noted' hkinds hrecords
    · apply ih
      · rfl
      · exact List.rel_append hrecords (.cons htold.2 .nil)

namespace Dialect

variable {d d' : Dialect} {s : Settings}

/-- Dialects with the same rules for all kinds inside a tree traverse the tree alike. -/
theorem walk_retold (d d' : Dialect) {root : Document} (hroot : d'.rootKind = d.rootKind)
    (h : ∀ kind ∈ (d.typedRoot root).kinds, d'.rule? kind = d.rule? kind) :
    Agree (Walk.Retold d d') ((d.walk s root).mapError (·.inDialect d'.name)) (d'.walk s root) := by
  have htyped : d'.typedRoot root = d.typedRoot root := by rw [typedRoot, typedRoot, hroot]
  rw [walk_eq_extend, walk_eq_extend, htyped]
  simp only [mapError_bind, mapError_fault_inDialect]
  apply Agree.bind_same
  intro found
  cases found with
  | none => exact .error _
  | some lines =>
    simp only [mapError_bind]
    apply (harvest_retold (p := { node := d.typedRoot root }) h).bind
    rintro y _ ⟨unknown, rfl, htold⟩
    obtain ⟨hkinds, hrecords⟩ := Walk.noteAll_retold htold ([], []) ([], []) rfl .nil
    exact .ok ⟨rfl, rfl, hkinds, hrecords⟩

/-- An extension traverses a tree as before if it names none of the kinds inside. -/
theorem walk_extend_retold {name : String} {overrides : List (String × Rule)}
    {body : Option BodyPlace} {root : Document}
    (absent : ∀ kind ∈ (d.typedRoot root).kinds, kind ∉ overrides.map Prod.fst) :
    Agree (Walk.Retold d (d.extend name overrides body))
      ((d.walk s root).mapError (·.inDialect name))
      ((d.extend name overrides body).walk s root) := by
  apply walk_retold d (d.extend name overrides body) rfl
  intro kind hkind
  apply rule?_extend_of_not
  rintro entry hentry rfl
  exact absent entry.1 hkind (List.mem_map_of_mem hentry)

end Dialect

/-- ESTree with one more kind. -/
def Sample.widened : Dialect :=
  Estree.dialect.extend "widened" [("Widget", Estree.statementRule "widget")]

end CodeMetrics
