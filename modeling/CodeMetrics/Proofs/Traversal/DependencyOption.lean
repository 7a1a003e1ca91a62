import CodeMetrics.Dialect.Registry
import CodeMetrics.Proofs.Rule.Asking
import CodeMetrics.Proofs.Scope.Step
import CodeMetrics.Proofs.Traversal.Lockstep

/-!
# `CodeMetrics.Proofs.Traversal.DependencyOption`: options that decide what is a dependency

Whether calls of a loading function are dependencies, under which name, and how paths are resolved
has no effect on what is counted. No rule asks for these options (`Flag.dependency_not_mem_flags`),
so two traversals under settings that differ in them read the same at every node, but for the
dependency.

Nor does it have an effect on dependencies of the other type. A call of the loading function is no
call of the `Import` keyword, so what a node refers to by an import is the same
(`DependencyForm.imports_of_read`). Dependencies are reported in the order of their lines, and those
of one type among them are the same as those of that type in order (`filter_mergeSort`).
-/

set_option autoImplicit false

namespace CodeMetrics

/-! ### Sorting and filtering -/

section Sorting

variable {α : Type} {le : α → α → Bool}

/-- Where a sorted list is split by a further item: what has to come before it, and the rest. -/
theorem mergeSort_cons_eq (trans : ∀ a b c, le a b → le b c → le a c)
    (total : ∀ a b, le a b || le b a) (a : α) (l : List α) :
    l.mergeSort le = (l.mergeSort le).filter (!le a ·) ++ (l.mergeSort le).filter (le a ·) ∧
    (a :: l).mergeSort le =
      (l.mergeSort le).filter (!le a ·) ++ a :: (l.mergeSort le).filter (le a ·) := by
  obtain ⟨before, after, hcons, hrest, hbefore⟩ := List.mergeSort_cons trans total a l
  have hafter : ∀ b ∈ after, le a b := by
    have hsorted := List.pairwise_mergeSort trans total (a :: l)
    rw [hcons] at hsorted
    exact (List.pairwise_cons.mp (List.pairwise_append.mp hsorted).2.1).1
  have hfirst : (l.mergeSort le).filter (!le a ·) = before := by
    rw [hrest, List.filter_append, List.filter_eq_self.mpr hbefore,
      List.filter_eq_nil_iff.mpr fun b hb => by simp [hafter b hb], List.append_nil]
  have hsecond : (l.mergeSort le).filter (le a ·) = after := by
    rw [hrest, List.filter_append, List.filter_eq_self.mpr hafter,
      List.filter_eq_nil_iff.mpr fun b hb => by simpa using hbefore b hb, List.nil_append]
  rw [hfirst, hsecond]
  exact ⟨hrest, hcons⟩

/-- Sorting is stable, so it does not matter whether items are left out before or after. -/
theorem filter_mergeSort (trans : ∀ a b c, le a b → le b c → le a c)
    (total : ∀ a b, le a b || le b a) (keep : α → Bool) (l : List α) :
    (l.mergeSort le).filter keep = (l.filter keep).mergeSort le := by
  induction l with
  | nil => simp
  | cons a l ih =>
    obtain ⟨hsplit, hcons⟩ := mergeSort_cons_eq trans total a l
    rw [hcons, List.filter_append, List.filter_cons, List.filter_cons]
    -- An item that is left out divides the sorted list in two, which are one again without it.
    cases keep a with
    | true =>
      rw [if_pos rfl, if_pos rfl, (mergeSort_cons_eq trans total a (l.filter keep)).2, ← ih]
      simp only [List.filter_filter, Bool.and_comm]
    | false =>
      rw [if_neg Bool.false_ne_true, if_neg Bool.false_ne_true, ← List.filter_append, ← hsplit, ih]

end Sorting

/-! ### Dependencies of either type -/

namespace Dependency

variable {s t : Settings} {node source : Document} {type : String}

/-- Whether a dependency was found on an import or export. -/
def isEsm (dependency : Dependency Int) : Bool :=
  dependency.type == esmType

theorem type_of_ofSource {found : Dependency Int} (h : ofSource node source type = .ok found) :
    found.type = type := by
  unfold ofSource at h
  obtain ⟨path, -, h⟩ := exists_of_bind_eq_ok h
  obtain ⟨lines, -, h⟩ := exists_of_bind_eq_ok h
  cases h
  rfl

/-- A call of the loading function is a dependency only if such calls are, and only if what is
called is an identifier. -/
theorem of_commonjs {found : Dependency Int} (h : commonjs s node = .ok (some found)) :
    s.on .commonjs = true ∧ found.type = commonjsType ∧ node.requireObject = .ok () ∧
      (node.get "callee").kindIn ["Identifier"] = true := by
  unfold commonjs at h
  cases hon : s.on .commonjs with
  | false =>
    rw [hon] at h
    cases h
  | true =>
    rw [hon] at h
    obtain ⟨_, hobject, h⟩ := exists_of_bind_eq_ok h
    simp only at h
    split at h
    · rename_i hcallee
      rw [Bool.and_eq_true] at hcallee
      obtain ⟨count, -, h⟩ := exists_of_bind_eq_ok h
      split at h
      · obtain ⟨first, -, h⟩ := exists_of_bind_eq_ok h
        obtain ⟨found', hfound, h⟩ := exists_of_bind_eq_ok h
        cases h
        exact ⟨rfl, type_of_ofSource hfound, hobject, hcallee.1⟩
      · cases h
    · cases h

/-- A call of an identifier is no call of the `Import` keyword. -/
theorem dynamicImport_of_identifier (hobject : node.requireObject = .ok ())
    (hcallee : (node.get "callee").kindIn ["Identifier"] = true) :
    dynamicImport node = .ok none := by
  have himport : (node.get "callee").kindIn ["Import"] = false := by
    unfold Document.kindIn at hcallee ⊢
    cases hkind : (node.get "callee").kind? with
    | none => rfl
    | some kind =>
      rw [hkind] at hcallee
      cases List.mem_singleton.mp (List.elem_iff.mp hcallee)
      decide
  rw [dynamicImport, hobject, himport]
  rfl

theorem isEsm_of_dynamicImport {found : Dependency Int}
    (h : dynamicImport node = .ok (some found)) : found.isEsm = true := by
  unfold dynamicImport at h
  obtain ⟨_, -, h⟩ := exists_of_bind_eq_ok h
  simp only at h
  split at h
  · obtain ⟨first, -, h⟩ := exists_of_bind_eq_ok h
    obtain ⟨found', hfound, h⟩ := exists_of_bind_eq_ok h
    cases h
    rw [isEsm, type_of_ofSource hfound, beq_self_eq_true]
  · cases h

theorem isEsm_of_esm {found : Dependency Int} (h : esm node = .ok (some found)) :
    found.isEsm = true := by
  unfold esm at h
  obtain ⟨_, -, h⟩ := exists_of_bind_eq_ok h
  simp only at h
  split at h
  · cases h
  · obtain ⟨found', hfound, h⟩ := exists_of_bind_eq_ok h
    cases h
    rw [isEsm, type_of_ofSource hfound, beq_self_eq_true]

/-- Dependencies that are all of the one type are kept. -/
theorem filter_isEsm_eq_self {found : Option (Dependency Int)}
    (h : ∀ one, found = some one → one.isEsm = true) : found.filter isEsm = found := by
  cases found with
  | none => rfl
  | some one => rw [Option.filter_some, h one rfl, if_pos rfl]

/-- What a call refers to as an import does not depend on which function loads. -/
theorem imports_of_ofCall {found : Option (Dependency Int)} (h : ofCall s node = .ok found) :
    dynamicImport node = .ok (found.filter isEsm) ∧
      (s.on .commonjs = false → found.filter isEsm = found) := by
  unfold ofCall at h
  obtain ⟨loaded, hloaded, h⟩ := exists_of_bind_eq_ok h
  cases loaded with
  | some one =>
    -- The call loads, so that `ofCall` does not look for an import. There is none to be found.
    cases h
    obtain ⟨hon, htype, hobject, hcallee⟩ := of_commonjs hloaded
    have hnot : one.isEsm = false := by
      rw [isEsm, htype]
      decide
    constructor
    · rw [dynamicImport_of_identifier hobject hcallee, Option.filter_some, hnot]
      rfl
    · intro hoff
      cases hon.symm.trans hoff
  | none =>
    have himport : dynamicImport node = .ok found := h
    have hall : found.filter isEsm = found := by
      refine filter_isEsm_eq_self fun one hone => ?_
      subst hone
      exact isEsm_of_dynamicImport himport
    rw [hall]
    exact ⟨himport, fun _ => rfl⟩

/-- A resolver leaves the type as it is. -/
theorem isEsm_resolved (s : Settings) (dependency : Dependency Int) :
    (dependency.resolved s).isEsm = dependency.isEsm := by
  unfold resolved
  split
  · rfl
  · split
    · rfl
    · split <;> rfl

theorem line_le_trans (a b c : Dependency Int) :
    decide (a.line ≤ b.line) → decide (b.line ≤ c.line) → decide (a.line ≤ c.line) := by
  simp only [decide_eq_true_eq]
  omega

theorem line_le_total (a b : Dependency Int) :
    decide (a.line ≤ b.line) || decide (b.line ≤ a.line) := by
  simp only [Bool.or_eq_true, decide_eq_true_eq]
  omega

/-- The dependencies of the one type in order are those among all that are in order. -/
theorem filter_inLineOrder (keep : Dependency Int → Bool) (ds : List (Dependency Int)) :
    (inLineOrder ds).filter keep = inLineOrder (ds.filter keep) :=
  filter_mergeSort line_le_trans line_le_total keep ds

end Dependency

/-- What a node refers to by an import or export. -/
def DependencyForm.imports (node : Document) :
    DependencyForm → Except Fault (Option (Dependency Int))
  | .call => Dependency.dynamicImport node
  | .source => Dependency.esm node

/-- The imports and exports among what is found at a node do not depend on the settings. Nothing
else is found where calls of the loading function are no dependencies. -/
theorem DependencyForm.imports_of_read {form : DependencyForm} {s : Settings} {node : Document}
    {found : Option (Dependency Int)} (h : form.read s node = .ok found) :
    form.imports node = .ok (found.filter Dependency.isEsm) ∧
      (s.on .commonjs = false → found.filter Dependency.isEsm = found) := by
  cases form with
  | call => exact Dependency.imports_of_ofCall h
  | source =>
    have hesm : Dependency.esm node = .ok found := h
    have hall : found.filter Dependency.isEsm = found := by
      refine Dependency.filter_isEsm_eq_self fun one hone => ?_
      subst hone
      exact Dependency.isEsm_of_esm hesm
    rw [hall]
    exact ⟨hesm, fun _ => rfl⟩

/-- Two settings find the same imports and exports by a rule. -/
theorem Rule.imports_eq {r : Rule} {s t : Settings} {node : Document}
    {found found' : Option (Dependency Int)} (h : r.dependencyAt s node = .ok found)
    (h' : r.dependencyAt t node = .ok found') :
    found'.filter Dependency.isEsm = found.filter Dependency.isEsm ∧
      (s.on .commonjs = false → found.filter Dependency.isEsm = found) := by
  unfold dependencyAt at h h'
  cases hform : r.dependency with
  | none =>
    rw [hform] at h h'
    cases h
    cases h'
    exact ⟨rfl, fun _ => rfl⟩
  | some form =>
    rw [hform] at h h'
    obtain ⟨himports, hall⟩ := DependencyForm.imports_of_read h
    obtain ⟨himports', -⟩ := DependencyForm.imports_of_read h'
    rw [himports] at himports'
    exact ⟨(Except.ok.inj himports').symm, hall⟩

/-! ### Two traversals -/

/-- The flags that decide what is a dependency and how the index is reported. -/
def Flag.dependencyFlags : List Flag := [.commonjs, .newmi]

/-- No rule of the dialects that are there from the start asks for them. -/
theorem Flag.dependency_not_mem_flags :
    ∀ entry ∈ Registry.standard.entries, ∀ f ∈ dependencyFlags, f ∉ entry.2.flags := by
  intro entry standard f hf hmem
  have hestree : ∀ f ∈ dependencyFlags, f ∉ Estree.dialect.flags := by decide +kernel
  exact hestree f hf (Registry.flags_subset standard hmem)

namespace Walk

/-- Walks that are the same but for dependencies on calls of the loading function. With different
resolvers, the other dependencies may differ in their paths. -/
structure SameMetrics (s t : Settings) (v w : Walk) : Prop where
  tree : w.tree = v.tree
  errors : w.errors = v.errors
  unsupported : w.unsupported = v.unsupported
  imports : t.resolver = s.resolver →
    w.found.filter Dependency.isEsm = v.found.filter Dependency.isEsm
  only : s.on .commonjs = false → v.found.filter Dependency.isEsm = v.found

variable {d : Dialect} {s t : Settings} {v w v' w' : Walk}

/-- The imports and exports after one more node. -/
theorem filter_found_record (w : Walk) (s : Settings) (c : Contribution) :
    (w.record s c).found.filter Dependency.isEsm =
      w.found.filter Dependency.isEsm ++
        ((c.dependency.filter Dependency.isEsm).map (·.resolved s)).toList := by
  show (w.found ++ (c.dependency.map (·.resolved s)).toList).filter _ = _
  rw [List.filter_append]
  congr 1
  cases c.dependency with
  | none => rfl
  | some one =>
    rw [Option.map_some, Option.toList_some, List.filter_singleton, Dependency.isEsm_resolved,
      Option.filter_some]
    cases one.isEsm <;> rfl

/-- What a rule reads is recorded alike, up to the dependency. -/
theorem SameMetrics.record {r : Rule} {p : Placed} {c c' : Contribution} (h : SameMetrics s t v w)
    (same : Unnoticed r.flags s p t p) (hc : r.Reads s p c) (hc' : r.Reads t p c') :
    SameMetrics s t (v.record s c) (w.record t c') := by
  have hrest := hc.eq_of_unnoticed hc' same
  obtain ⟨himports, hall⟩ := Rule.imports_eq hc.dependency hc'.dependency
  refine ⟨?_, h.errors, h.unsupported, ?_, ?_⟩
  · rw [tree_record, tree_record, h.tree, hrest]
    rfl
  · intro hresolver
    rw [filter_found_record, filter_found_record, h.imports hresolver, himports,
      Dependency.resolved_congr hresolver]
  · intro hoff
    rw [filter_found_record, h.only hoff, hall hoff]
    rfl

/-- Opening a scope depends on the scopes only. -/
theorem SameMetrics.openScope (h : SameMetrics s t v w) (p : Placed) (rule : Rule)
    (form : ScopeForm) :
    Agree (SameMetrics s t) (v.openScope p rule form) (w.openScope p rule form) := by
  unfold Walk.openScope
  rw [h.tree]
  refine Agree.bind_same _ fun lines => ?_
  cases form with
  | function => exact .ok ⟨rfl, h.errors, h.unsupported, h.imports, h.only⟩
  | classBody => exact .ok ⟨rfl, h.errors, h.unsupported, h.imports, h.only⟩

/-- So does closing one. -/
theorem SameMetrics.closeScope (h : SameMetrics s t v w) (form : ScopeForm) :
    Agree (SameMetrics s t) (v.closeScope form) (w.closeScope form) := by
  unfold Walk.closeScope
  rw [h.tree]
  refine Agree.bind_same _ fun tree => ?_
  exact .ok ⟨rfl, h.errors, h.unsupported, h.imports, h.only⟩

/-- A step that both traversals can take keeps them in step. -/
theorem SameMetrics.perform (h : SameMetrics s t v w)
    (blind : ∀ f ∈ Flag.dependencyFlags, f ∉ d.flags)
    (same : ∀ f, f ∉ Flag.dependencyFlags → t.on f = s.on f) {task : Task}
    (hv : v.perform d s task = .ok v') (hw : w.perform d t task = .ok w') :
    SameMetrics s t v' w' ∧ task.next d t = task.next d s := by
  cases task with
  | openScope p rule form => exact ⟨(h.openScope p rule form).rel hv hw, rfl⟩
  | closeScope form => exact ⟨(h.closeScope form).rel hv hw, rfl⟩
  | visit p =>
    cases hrule : d.ruleFor p.node with
    | none =>
      simp only [Walk.perform, hrule] at hv hw
      have hmeet : Agree (SameMetrics s t)
          (v.meetUnknown d s p.node) (w.meetUnknown d t p.node) := by
        refine agree_meetUnknown (same .strict (by decide)) h.errors h.unsupported h ?_ p.node
        intro errors unsupported
        exact ⟨h.tree, rfl, rfl, h.imports, h.only⟩
      refine ⟨hmeet.rel hv hw, ?_⟩
      simp only [Task.next, hrule]
    | some rule =>
      simp only [Walk.perform, hrule] at hv hw
      obtain ⟨c, hc, hv⟩ := exists_of_bind_eq_ok hv
      obtain ⟨c', hc', hw⟩ := exists_of_bind_eq_ok hw
      have hreads := eq_ok_of_mapError hc
      have hreads' := eq_ok_of_mapError hc'
      cases hv
      cases hw
      have hunnoticed : Unnoticed rule.flags s p t p := by
        refine ⟨fun f hf => same f fun hmem => ?_, rfl, rfl⟩
        exact blind f hmem (Dialect.flags_subset_of_ruleFor hrule hf)
      refine ⟨h.record hunnoticed (Rule.reads_of_read hreads) (Rule.reads_of_read hreads'), ?_⟩
      -- The same keys are passed over, so the same work comes next.
      have hrest := (Rule.reads_of_read hreads).eq_of_unnoticed (Rule.reads_of_read hreads')
        hunnoticed
      simp only [Task.next, hrule, hreads, hreads']
      rw [hrest]

end Walk

namespace Dialect

variable {name : String} {d : Dialect} {s t : Settings} {root : Document}

/-- Options for dependencies do not touch the metrics. Two traversals of a tree, by the rules of a
dialect that is there from the start and under settings that differ in which calls are dependencies,
in the resolver and in how the index is reported, end with the same scopes and the same problems.
With the same resolver they find the same imports and exports, in the same order, and these are all
that is found if calls of the loading function are no dependencies. -/
theorem dependency_options_keep_metrics (standard : (name, d) ∈ Registry.standard.entries)
    (same : ∀ f, f ∉ Flag.dependencyFlags → t.on f = s.on f) {v w : Walk}
    (hv : d.walk s root = .ok v) (hw : d.walk t root = .ok w) :
    w.tree = v.tree ∧ w.errors = v.errors ∧ w.unsupported = v.unsupported ∧
    (t.resolver = s.resolver →
      w.dependencies.filter Dependency.isEsm = v.dependencies.filter Dependency.isEsm ∧
      (s.on .commonjs = false → v.dependencies = w.dependencies.filter Dependency.isEsm)) := by
  have hsame : Walk.SameMetrics s t v w :=
    walks_both (fun _ => ⟨rfl, rfl, rfl, fun _ => rfl, fun _ => rfl⟩)
      (fun _ _ _ _ _ h hv hw =>
        h.perform (Flag.dependency_not_mem_flags _ standard) same hv hw) hv hw
  refine ⟨hsame.tree, hsame.errors, hsame.unsupported, fun hresolver => ⟨?_, fun hoff => ?_⟩⟩
  · rw [Walk.dependencies, Walk.dependencies, Dependency.filter_inLineOrder,
      Dependency.filter_inLineOrder, hsame.imports hresolver]
  · rw [Walk.dependencies, Walk.dependencies, Dependency.filter_inLineOrder,
      hsame.imports hresolver, hsame.only hoff]

end Dialect

namespace Sample

/-- A call with a text as its argument, with other fields besides. -/
def load (callee : Document) (path : String) (rest : List (String × Document)) : Document :=
  node "CallExpression"
    (("callee", callee) :: ("arguments", .list [node "Literal" [("value", .string path)]]) :: rest)

/-- A module that loads one module by a function, and one by an import in a line before. -/
def loading : Document :=
  node "Program"
    [("body", .list
      [node "ExpressionStatement"
        [("expression", load (name "fetch") "a" [("loc", location)])],
       node "ExpressionStatement" [("expression", load (node "Import" []) "b" [])]]),
     ("loc", location)]

/-- Settings by which calls of `fetch` are dependencies. -/
def fetching : Settings :=
  { commonjs := .bool true, requireName := "fetch", newmi := .bool true }

end Sample

/-- In the module that loads two others, only the import is found unless calls of the function are
dependencies as well. The scopes are the same. -/
theorem dependency_options_keep_metrics_loading :
    ("estree", Estree.dialect) ∈ Registry.standard.entries ∧
    (∀ f, f ∉ Flag.dependencyFlags → Sample.fetching.on f = ({} : Settings).on f) ∧
    ∃ v w, Estree.dialect.walk {} Sample.loading = .ok v ∧
      Estree.dialect.walk Sample.fetching Sample.loading = .ok w ∧
      w.tree = v.tree ∧ v.dependencies = w.dependencies.filter Dependency.isEsm ∧
      w.found.map Dependency.type = ["cjs", "esm"] ∧ v.found.map Dependency.type = ["esm"] := by
  have hstandard : ("estree", Estree.dialect) ∈ Registry.standard.entries := List.mem_cons_self
  have hsame : ∀ f, f ∉ Flag.dependencyFlags → Sample.fetching.on f = ({} : Settings).on f := by
    intro f hf
    cases f <;> first | rfl | exact absurd (by decide) hf
  have hplain : (Estree.dialect.walk {} Sample.loading).toOption.map
      (fun w => w.found.map Dependency.type) = some ["esm"] := by
    decide +kernel
  have hfetching : (Estree.dialect.walk Sample.fetching Sample.loading).toOption.map
      (fun w => w.found.map Dependency.type) = some ["cjs", "esm"] := by
    decide +kernel
  obtain ⟨v, hdone, htypes⟩ := exists_ok_of_map_toOption hplain
  obtain ⟨w, hdone', htypes'⟩ := exists_ok_of_map_toOption hfetching
  obtain ⟨htree, -, -, hdependencies⟩ :=
    Dialect.dependency_options_keep_metrics hstandard hsame hdone hdone'
  exact ⟨hstandard, hsame, v, w, hdone, hdone', htree, (hdependencies rfl).2 rfl, htypes', htypes⟩

end CodeMetrics
