import CodeMetrics.Proofs.Dialect.CountingFlag
import CodeMetrics.Proofs.Scope.ClassAttribution
import CodeMetrics.Proofs.Traversal.Extension
import CodeMetrics.Proofs.Traversal.Lockstep

/-!
# `CodeMetrics.Proofs.Scope.Recount`: the effect of the flags that change a count

Two traversals of a tree under settings that differ in the flags that change a count go the same
way and collect the same, up to the counts. `uncounted` takes the counts of lines and paths away,
and no step can tell walks apart that are the same without them (`Walk.agree_perform`).

By how much the counts differ follows from what is counted for a scope: the scope has what its
occurrences contribute in both traversals, and these are the same occurrences. Each flag that
changes contributes its change once for every node that it governs (`Flag.shift`), so the scopes
of one traversal are those of the other, recounted (`Dialect.recounted_of_flags`).
-/

set_option autoImplicit false

namespace CodeMetrics

/-! ### Scopes without their counts -/

/-- A scope without its lines and paths. -/
def Scope.uncounted (scope : Scope Int String) : Scope Int String :=
  { scope with logical := 0, cyclomatic := 0 }

/-- A class without its lines and paths. -/
def ClassScope.uncounted (c : ClassScope Int String) : ClassScope Int String :=
  { c with toScope := c.toScope.uncounted }

/-- A tree of scopes without their lines and paths. -/
def ScopeTree.uncounted (t : ScopeTree Int String) : ScopeTree Int String :=
  { t with
    module := t.module.uncounted
    functions := t.functions.map Scope.uncounted
    classes := t.classes.map ClassScope.uncounted }

/-- A walk without the lines and paths of its scopes. -/
def Walk.uncounted (w : Walk) : Walk :=
  { w with tree := w.tree.uncounted }

/-- Contributions that add the same tokens do the same to a scope, up to the counts. -/
theorem Scope.uncounted_absorb {a b : Scope Int String} (h : b.uncounted = a.uncounted)
    {s t : Settings} {node : Document} {c c' : Contribution} (hc : c.Recounts s t node c') :
    (Scope.absorb c' b).uncounted = (Scope.absorb c a).uncounted := by
  simp only [uncounted, mk.injEq, true_and] at h
  rw [hc.rest]
  simp [uncounted, absorb, h]

/-- A function that is opened inside adds the same parameters. -/
theorem Scope.uncounted_addFunction {a b : Scope Int String} (h : b.uncounted = a.uncounted)
    (params : Nat) : (b.addFunction params).uncounted = (a.addFunction params).uncounted := by
  simp only [uncounted, mk.injEq, true_and] at h
  simp [uncounted, addFunction, h]

/-- Classes are the same without their counts if what they have as scopes is, and the rest. -/
theorem ClassScope.uncounted_eq_iff {a b : ClassScope Int String} :
    b.uncounted = a.uncounted ↔ b.toScope.uncounted = a.toScope.uncounted ∧
      b.superName = a.superName ∧ b.depth = a.depth ∧ b.methods = a.methods := by
  simp [uncounted]

namespace ScopeTree

variable {v w : ScopeTree Int String}

/-- Trees of scopes are the same without the counts if all of their parts are. -/
theorem uncounted_eq_iff :
    w.uncounted = v.uncounted ↔ w.module.uncounted = v.module.uncounted ∧
      w.functions.map Scope.uncounted = v.functions.map Scope.uncounted ∧
      w.openFunctions = v.openFunctions ∧
      w.classes.map ClassScope.uncounted = v.classes.map ClassScope.uncounted ∧
      w.openClasses = v.openClasses ∧ w.anonymous = v.anonymous := by
  simp [uncounted]

/-- Changes that cannot tell items apart which are the same through `g`, carried out at the same
place of two lists. -/
theorem map_modifyAt_congr {α β : Type} {g : α → β} {f f' : α → α}
    (h : ∀ a b, g b = g a → g (f' b) = g (f a)) {l l' : List α} (heq : l'.map g = l.map g)
    (place : Option Nat) : (modifyAt place f' l').map g = (modifyAt place f l).map g := by
  cases place with
  | none => exact heq
  | some i =>
    refine List.ext_getElem? fun k => ?_
    have hk : (l'[k]?).map g = (l[k]?).map g := by
      rw [← List.getElem?_map, ← List.getElem?_map, heq]
    simp only [modifyAt, Option.elim_some, List.getElem?_map, List.getElem?_modify]
    cases hl : l[k]? with
    | none =>
      rw [hl, Option.map_none, Option.map_eq_none_iff] at hk
      rw [hk]
      rfl
    | some a =>
      rw [hl, Option.map_some, Option.map_eq_some_iff] at hk
      obtain ⟨b, hb, hab⟩ := hk
      rw [hb]
      by_cases hik : i = k
      · simp [hik, h a b hab]
      · simp [hik, hab]

/-- The current lines do not depend on the counts. -/
theorem lines_current_of_uncounted (h : w.uncounted = v.uncounted) :
    w.current.lines = v.current.lines := by
  obtain ⟨hmodule, hfunctions, hopen, -, -, -⟩ := uncounted_eq_iff.mp h
  have hlines : w.module.uncounted.lines = v.module.uncounted.lines := by rw [hmodule]
  unfold current currentFunction?
  rw [hopen]
  cases v.openFunctions with
  | nil => exact hlines
  | cons i rest =>
    have hi : (w.functions[i - 1]?).map Scope.lines = (v.functions[i - 1]?).map Scope.lines := by
      have := congrArg (fun fs => (fs[i - 1]?).map Scope.lines) hfunctions
      simp only [List.getElem?_map, Option.map_map] at this
      exact this
    show (w.functions[i - 1]?.getD w.module).lines = (v.functions[i - 1]?.getD v.module).lines
    -- The two trees have functions at the same places, so both fall back on the module or neither
    -- does.
    cases hv : v.functions[i - 1]? with
    | none =>
      rw [hv, Option.map_none, Option.map_eq_none_iff] at hi
      rw [hi]
      exact hlines
    | some f =>
      rw [hv, Option.map_some, Option.map_eq_some_iff] at hi
      obtain ⟨g, hg, hlines⟩ := hi
      rw [hg]
      exact hlines

/-- Contributing changes the same scopes. -/
theorem uncounted_contribute (h : w.uncounted = v.uncounted)
    {f f' : Scope Int String → Scope Int String}
    (hf : ∀ a b : Scope Int String, b.uncounted = a.uncounted →
      (f' b).uncounted = (f a).uncounted) :
    (w.contribute f').uncounted = (v.contribute f).uncounted := by
  obtain ⟨hmodule, hfunctions, hopen, hclasses, hopenClasses, hanonymous⟩ := uncounted_eq_iff.mp h
  refine uncounted_eq_iff.mpr ⟨?_, ?_, ?_, ?_, ?_, ?_⟩
  · rw [module_contribute, module_contribute]
    exact hf _ _ hmodule
  · rw [functions_contribute, functions_contribute, functions_modifyFunction,
      functions_modifyFunction, hopen]
    exact map_modifyAt_congr hf hfunctions _
  · rw [openFunctions_contribute, openFunctions_contribute, hopen]
  · rw [classes_contribute, classes_contribute, classes_modifyClass, classes_modifyClass,
      hopenClasses]
    refine map_modifyAt_congr (fun a b hab => ?_) hclasses _
    obtain ⟨hscope, hrest⟩ := ClassScope.uncounted_eq_iff.mp hab
    exact ClassScope.uncounted_eq_iff.mpr ⟨hf _ _ hscope, hrest⟩
  · rw [openClasses_contribute, openClasses_contribute, hopenClasses]
  · rw [anonymous_contribute, anonymous_contribute, hanonymous]

/-- Opening a function opens the same one. -/
theorem uncounted_push (h : w.uncounted = v.uncounted) (name : Option Document) (lines : Lines Int)
    (params : List Document) :
    (w.push name lines params).uncounted = (v.push name lines params).uncounted := by
  obtain ⟨hmodule, hfunctions, hopen, hclasses, hopenClasses, hanonymous⟩ := uncounted_eq_iff.mp h
  have hlength : w.functions.length = v.functions.length := by
    rw [← List.length_map Scope.uncounted, hfunctions, List.length_map]
  refine uncounted_eq_iff.mpr ⟨?_, ?_, ?_, ?_, ?_, ?_⟩
  · rw [module_push, module_push]
    exact Scope.uncounted_addFunction hmodule _
  · rw [push_eq, push_eq]
    simp only [List.map_append, hfunctions, hlength, hanonymous, currentIndex, hopen]
  · rw [openFunctions_push, openFunctions_push, hlength, hopen]
  · -- Whether the function is a method depends on the depth, which is the same.
    rw [classes_push, classes_push, classes_modifyClass, classes_modifyClass, hopenClasses,
      hlength, depth, depth, hopen]
    refine map_modifyAt_congr (fun a b hab => ?_) hclasses _
    obtain ⟨hscope, hsuper, hdepth, hmethods⟩ := ClassScope.uncounted_eq_iff.mp hab
    refine ClassScope.uncounted_eq_iff.mpr
      ⟨Scope.uncounted_addFunction hscope _, hsuper, hdepth, ?_⟩
    simp only [enroll, hdepth, hmethods]
  · rw [openClasses_push, openClasses_push, hopenClasses]
  · rw [push_eq, push_eq]
    simp only [hanonymous]

/-- Opening a class opens the same one. -/
theorem uncounted_openClass (h : w.uncounted = v.uncounted) (name superName : Option Document)
    (lines : Lines Int) :
    (w.openClass name superName lines).uncounted =
      (v.openClass name superName lines).uncounted := by
  obtain ⟨hmodule, hfunctions, hopen, hclasses, hopenClasses, hanonymous⟩ := uncounted_eq_iff.mp h
  have hlength : w.classes.length = v.classes.length := by
    rw [← List.length_map ClassScope.uncounted, hclasses, List.length_map]
  simp only [openClass, uncounted_eq_iff, List.map_append, hmodule, hfunctions, hopen, hclasses,
    hopenClasses, hanonymous, hlength, currentIndex, depth, and_self]

/-- Closing a function fails for both or for none. -/
theorem agree_pop (h : w.uncounted = v.uncounted) :
    Agree (fun v w : ScopeTree Int String => w.uncounted = v.uncounted) v.pop w.pop := by
  obtain ⟨hmodule, hfunctions, hopen, hrest⟩ := uncounted_eq_iff.mp h
  unfold pop
  rw [hopen]
  cases v.openFunctions with
  | nil => exact .error _
  | cons i rest => exact .ok (uncounted_eq_iff.mpr ⟨hmodule, hfunctions, rfl, hrest⟩)

/-- Closing a class fails for both or for none. -/
theorem agree_closeClass (h : w.uncounted = v.uncounted) :
    Agree (fun v w : ScopeTree Int String => w.uncounted = v.uncounted)
      v.closeClass w.closeClass := by
  obtain ⟨hmodule, hfunctions, hopen, hclasses, hopenClasses, hanonymous⟩ := uncounted_eq_iff.mp h
  unfold closeClass
  rw [hopenClasses]
  cases v.openClasses with
  | nil => exact .error _
  | cons i rest =>
    exact .ok (uncounted_eq_iff.mpr ⟨hmodule, hfunctions, hopen, hclasses, rfl, hanonymous⟩)

end ScopeTree

/-! ### Walks that differ in their counts -/

namespace Walk

variable {v w : Walk}

/-- Walks are the same without the counts if their scopes are, and all the rest. -/
theorem uncounted_eq_iff :
    w.uncounted = v.uncounted ↔ w.tree.uncounted = v.tree.uncounted ∧ w.found = v.found ∧
      w.errors = v.errors ∧ w.unsupported = v.unsupported := by
  simp [uncounted]

/-- Contributions that differ in their counts are recorded alike. -/
theorem uncounted_record (h : w.uncounted = v.uncounted) {s t : Settings} {node : Document}
    {c c' : Contribution} (hc : c.Recounts s t node c') (hresolver : t.resolver = s.resolver) :
    (w.record t c').uncounted = (v.record s c).uncounted := by
  obtain ⟨htree, hfound, herrors, hunsupported⟩ := uncounted_eq_iff.mp h
  have hdependency : c'.dependency = c.dependency := by rw [hc.rest]
  refine uncounted_eq_iff.mpr ⟨?_, ?_, herrors, hunsupported⟩
  · rw [tree_record, tree_record]
    exact ScopeTree.uncounted_contribute htree fun a b hab => Scope.uncounted_absorb hab hc
  · show w.found ++ _ = v.found ++ _
    rw [hfound, hdependency, Dependency.resolved_congr hresolver]

/-- A scope is opened alike. -/
theorem agree_openScope (h : w.uncounted = v.uncounted) (p : Placed) (rule : Rule)
    (form : ScopeForm) :
    Agree (fun v w : Walk => w.uncounted = v.uncounted)
      (v.openScope p rule form) (w.openScope p rule form) := by
  obtain ⟨htree, hrest⟩ := uncounted_eq_iff.mp h
  unfold openScope
  rw [ScopeTree.lines_current_of_uncounted htree]
  refine Agree.bind_same _ fun lines => ?_
  cases form with
  | function => exact .ok (uncounted_eq_iff.mpr ⟨ScopeTree.uncounted_push htree _ _ _, hrest⟩)
  | classBody => exact .ok (uncounted_eq_iff.mpr ⟨ScopeTree.uncounted_openClass htree _ _ _, hrest⟩)

/-- A scope is closed alike. -/
theorem agree_closeScope (h : w.uncounted = v.uncounted) (form : ScopeForm) :
    Agree (fun v w : Walk => w.uncounted = v.uncounted)
      (v.closeScope form) (w.closeScope form) := by
  obtain ⟨htree, hrest⟩ := uncounted_eq_iff.mp h
  unfold closeScope
  cases form with
  | function =>
    exact ((ScopeTree.agree_pop htree).mapError _).bind fun a b hab =>
      .ok (uncounted_eq_iff.mpr ⟨hab, hrest⟩)
  | classBody =>
    exact ((ScopeTree.agree_closeClass htree).mapError _).bind fun a b hab =>
      .ok (uncounted_eq_iff.mpr ⟨hab, hrest⟩)

/-- No step can tell walks apart that differ in their counts, nor settings that differ in the flags
that change a count. -/
theorem agree_perform {name : String} {d : Dialect}
    (standard : (name, d) ∈ Registry.standard.entries) {s t : Settings}
    (h : s.DifferIn Flag.countFlags t) (task : Task) (hvw : w.uncounted = v.uncounted) :
    Agree (fun v w : Walk => w.uncounted = v.uncounted)
      (v.perform d s task) (w.perform d t task) := by
  cases task with
  | visit p =>
    cases hrule : d.ruleFor p.node with
    | none =>
      obtain ⟨htree, hfound, herrors, hunsupported⟩ := uncounted_eq_iff.mp hvw
      simp only [perform, hrule]
      refine agree_meetUnknown (h.on .strict (by decide)) herrors hunsupported hvw ?_ p.node
      intro errors unsupported
      rw [uncounted_eq_iff]
      exact ⟨htree, hfound, rfl, rfl⟩
    | some rule =>
      simp only [perform, hrule]
      refine ((Registry.agree_read standard h hrule).mapError _).bind fun c c' hc => ?_
      exact .ok (uncounted_record hvw hc h.resolver)
  | openScope p rule form => exact agree_openScope hvw p rule form
  | closeScope form => exact agree_closeScope hvw form

end Walk

/-! ### By how much the counts differ -/

namespace Flag

variable (s t : Settings)

/-- What a flag changes in a count of some occurrences: one for each node that it governs, if it
is turned on or off. -/
def shift (vs : List Occurrence) (f : Flag) : Int :=
  (f.amount t - f.amount s) * vs.countP fun o => f.governs o.place.node

/-- What changes in the logical lines of some occurrences. -/
def lineShift (vs : List Occurrence) : Int :=
  esmLloc.shift s t vs

/-- What changes in the paths of some occurrences. -/
def pathShift (vs : List Occurrence) : Int :=
  (pathFlags.map (shift s t vs)).sum

variable {s t}

theorem shift_cons (o : Occurrence) (vs : List Occurrence) (f : Flag) :
    f.shift s t (o :: vs) = f.change s t o.place.node + f.shift s t vs := by
  rw [shift, shift, List.countP_cons, change]
  split
  · rw [Int.natCast_add, Int.mul_add]
    omega
  · rw [Nat.add_zero, Int.zero_add]

/-- The changes at some occurrences add up. -/
theorem sum_change (vs : List Occurrence) (f : Flag) :
    (vs.map fun o => f.change s t o.place.node).sum = f.shift s t vs := by
  induction vs with
  | nil => simp [shift]
  | cons o vs ih => rw [List.map_cons, List.sum_cons, ih, shift_cons]

/-- So do the changes of paths, which are those of several flags. -/
theorem sum_pathChange (vs : List Occurrence) :
    (vs.map fun o => pathChange s t o.place.node).sum = pathShift s t vs := by
  induction vs with
  | nil => simp [pathShift, pathFlags, shift]
  | cons o vs ih =>
    have hcons : shift s t (o :: vs) = fun f => f.change s t o.place.node + f.shift s t vs :=
      funext (shift_cons o vs)
    rw [List.map_cons, List.sum_cons, ih, pathShift, pathShift, hcons, List.sum_map_add, pathChange]

/-- The flags that are not changed shift nothing. -/
theorem shift_of_on_eq {f : Flag} (h : t.on f = s.on f) (vs : List Occurrence) :
    f.shift s t vs = 0 := by
  rw [shift, amount, amount, h, Int.sub_self, Int.zero_mul]

/-- Where only the flag for alternatives is turned off, one path less is counted for each
alternative. -/
theorem pathShift_of_logicalor_off (hon : s.on .logicalor = true) (hoff : t.on .logicalor = false)
    (hrest : ∀ f ∈ pathFlags, f ≠ .logicalor → t.on f = s.on f) (vs : List Occurrence) :
    pathShift s t vs = -(vs.countP fun o => logicalor.governs o.place.node : Nat) := by
  have hother : ∀ f, f ≠ .logicalor → f ∈ pathFlags → f.shift s t vs = 0 := fun f hne hf =>
    shift_of_on_eq (hrest f hf hne) vs
  have honce : pathFlags.count .logicalor = 1 := by decide
  rw [pathShift, List.sum_map_eq_nsmul_single .logicalor _ hother, honce, one_nsmul, shift,
    amount, amount, hon, hoff, if_neg Bool.false_ne_true, if_pos rfl]
  omega

end Flag

namespace Dialect

variable {name : String} {d : Dialect} {s t : Settings} {root : Document}

/-- What a node contributes that can be read. -/
theorem contribution_recounts (standard : (name, d) ∈ Registry.standard.entries)
    (h : s.DifferIn Flag.countFlags t) {p : Placed} (hreadable : (d.ignored? s p).isSome) :
    (d.contribution s p).Recounts s t p.node (d.contribution t p) := by
  cases hrule : d.ruleFor p.node with
  | none =>
    rw [contribution_of_unknown hrule, contribution_of_unknown hrule]
    exact .refl (Registry.governs_of_unknown standard hrule) s t _
  | some rule =>
    -- The node was read under `s`, so it can be read under `t` as well.
    have hread := Registry.agree_read standard h hrule
    cases hs : rule.read s p with
    | error fault => simp [ignored?, hrule, hs, Except.toOption] at hreadable
    | ok c =>
      rw [hs] at hread
      cases ht : rule.read t p with
      | error fault =>
        rw [ht] at hread
        cases hread
      | ok c' =>
        rw [ht] at hread
        rw [contribution_of_read hrule hs, contribution_of_read hrule ht]
        cases hread with
        | ok hcc => exact hcc

/-- Settings that differ in the flags that change a count pass over the same keys. -/
theorem ignored?_of_differIn (standard : (name, d) ∈ Registry.standard.entries)
    (h : s.DifferIn Flag.countFlags t) (p : Placed) : d.ignored? t p = d.ignored? s p := by
  unfold ignored?
  cases hrule : d.ruleFor p.node with
  | none => rfl
  | some rule =>
    have hread := Registry.agree_read standard h hrule
    simp only
    generalize rule.read s p = x at hread
    generalize rule.read t p = y at hread
    cases hread with
    | error fault => rfl
    | ok hcc =>
      rw [hcc.rest]
      rfl

/-- Traversals of a tree that both come to their ends carry out the same errands. -/
theorem errands_of_differIn (standard : (name, d) ∈ Registry.standard.entries)
    (h : s.DifferIn Flag.countFlags t) {v w : Walk} (hv : d.walk s root = .ok v)
    (hw : d.walk t root = .ok w) : (d.journal t root).errands = (d.journal s root).errands := by
  have hnext : ∀ e : Errand, e.next d t = e.next d s :=
    Errand.next_congr (ignored?_of_differIn standard h)
  rw [(performAll_of_walk hw).1, (performAll_of_walk hv).1, Errand.script_congr hnext]

/-- The lines that some occurrences contribute. -/
theorem sum_lloc_of_differIn (standard : (name, d) ∈ Registry.standard.entries)
    (h : s.DifferIn Flag.countFlags t) {vs : List Occurrence}
    (hreadable : ∀ o ∈ vs, (d.ignored? s o.place).isSome) :
    (vs.map fun o => (d.contribution t o.place).lloc).sum =
      (vs.map fun o => (d.contribution s o.place).lloc).sum + Flag.lineShift s t vs := by
  rw [Flag.lineShift, ← Flag.sum_change, ← List.sum_map_add]
  exact congrArg List.sum (List.map_congr_left fun o ho =>
    (contribution_recounts standard h (hreadable o ho)).lloc)

/-- The paths that some occurrences contribute. -/
theorem sum_cyclomatic_of_differIn (standard : (name, d) ∈ Registry.standard.entries)
    (h : s.DifferIn Flag.countFlags t) {vs : List Occurrence}
    (hreadable : ∀ o ∈ vs, (d.ignored? s o.place).isSome) :
    (vs.map fun o => (d.contribution t o.place).cyclomatic).sum =
      (vs.map fun o => (d.contribution s o.place).cyclomatic).sum + Flag.pathShift s t vs := by
  rw [← Flag.sum_pathChange, ← List.sum_map_add]
  exact congrArg List.sum (List.map_congr_left fun o ho =>
    (contribution_recounts standard h (hreadable o ho)).cyclomatic)

end Dialect

/-! ### Recounted scopes -/

/-- The scope with other counts: those under the settings `t` in place of those under `s`, where
the scope has counted some occurrences. -/
def Scope.recount (s t : Settings) (vs : List Occurrence) (scope : Scope Int String) :
    Scope Int String :=
  { scope with
    logical := scope.logical + Flag.lineShift s t vs
    cyclomatic := scope.cyclomatic + Flag.pathShift s t vs }

/-- The walk with other counts, where its scopes have counted the nodes that they own by a
journal. The module has counted all that were visited. -/
def Walk.recount (d : Dialect) (s t : Settings) (j : Journal) (w : Walk) : Walk :=
  { w with
    tree :=
      { w.tree with
        module := w.tree.module.recount s t j.visited
        functions := List.zipWith
          (fun o f => f.recount s t (j.visited.filter (·.ownedBy d .function o)))
          (j.opened .function) w.tree.functions
        classes := List.zipWith
          (fun o c => { c with
            toScope := c.toScope.recount s t (j.visited.filter (·.ownedBy d .classBody o)) })
          (j.opened .classBody) w.tree.classes } }

/-- Scopes that have counted the same occurrences are recounted ones of each other. -/
theorem Scope.eq_recount {name : String} {d : Dialect}
    (standard : (name, d) ∈ Registry.standard.entries) {s t : Settings}
    (h : s.DifferIn Flag.countFlags t) {a b : Scope Int String} {base : Int}
    {vs : List Occurrence} (hreadable : ∀ o ∈ vs, (d.ignored? s o.place).isSome)
    (huncounted : b.uncounted = a.uncounted) (ha : a.Collects d s base vs)
    (hb : b.Collects d t base vs) : b = a.recount s t vs := by
  have hlogical : b.logical = a.logical + Flag.lineShift s t vs := by
    rw [hb.logical, ha.logical, Dialect.sum_lloc_of_differIn standard h hreadable]
  have hcyclomatic : b.cyclomatic = a.cyclomatic + Flag.pathShift s t vs := by
    rw [hb.cyclomatic, ha.cyclomatic, Dialect.sum_cyclomatic_of_differIn standard h hreadable]
    omega
  rw [recount, ← hlogical, ← hcyclomatic]
  cases a
  cases b
  simp only [uncounted, mk.injEq] at huncounted ⊢
  simp [huncounted]

/-- A list whose items come from two others, place by place. -/
theorem eq_zipWith_of_forall {α β : Type} {f : α → β → β} {os : List α} {xs ys : List β}
    (hos : os.length = xs.length) (hys : ys.length = xs.length)
    (h : ∀ (k : Nat) (o : α) (x y : β), os[k]? = some o → xs[k]? = some x → ys[k]? = some y →
      y = f o x) : ys = List.zipWith f os xs := by
  refine List.ext_getElem? fun k => ?_
  rw [List.getElem?_zipWith]
  by_cases hk : k < xs.length
  · have hok : os[k]? = some (os.get ⟨k, by omega⟩) := List.getElem?_eq_getElem _
    have hxk : xs[k]? = some (xs.get ⟨k, hk⟩) := List.getElem?_eq_getElem _
    have hyk : ys[k]? = some (ys.get ⟨k, by omega⟩) := List.getElem?_eq_getElem _
    rw [hok, hxk, hyk, h k _ _ _ hok hxk hyk]
  · rw [List.getElem?_eq_none (by omega), List.getElem?_eq_none (by omega)]

/-- Items at the same place of two lists that are the same through `g`. -/
theorem apply_eq_of_map_eq {α β : Type} {g : α → β} {l l' : List α} (h : l'.map g = l.map g)
    {k : Nat} {a b : α} (ha : l[k]? = some a) (hb : l'[k]? = some b) : g b = g a := by
  have hk : (l'.map g)[k]? = (l.map g)[k]? := by rw [h]
  rw [List.getElem?_map, List.getElem?_map, ha, hb] at hk
  exact Option.some.inj hk

namespace Dialect

variable {name : String} {d : Dialect} {s t : Settings} {root : Document}

/-- Two traversals that come to their ends, where the walks are the same but for the counts: the
counts differ by what the flags change at the nodes that the scopes have counted. -/
theorem eq_recount_of_walks (standard : (name, d) ∈ Registry.standard.entries)
    (h : s.DifferIn Flag.countFlags t) {v w : Walk} (hv : d.walk s root = .ok v)
    (hw : d.walk t root = .ok w) (huncounted : w.uncounted = v.uncounted) :
    w = v.recount d s t (d.journal s root) := by
  obtain ⟨htree, hfound, herrors, hunsupported⟩ := Walk.uncounted_eq_iff.mp huncounted
  obtain ⟨hmodule, hfunctions, hopen, hclasses, hopenClasses, hanonymous⟩ :=
    ScopeTree.uncounted_eq_iff.mp htree
  have hsFunctions := attributesFunctions_of_walk hv
  have htFunctions := attributesFunctions_of_walk hw
  have hsClasses := attributesClasses_of_walk hv
  have htClasses := attributesClasses_of_walk hw
  -- Both traversals carry out the same errands, so a scope counts the same nodes in both.
  rw [errands_of_differIn standard h hv hw] at htFunctions htClasses
  have hreadable : ∀ o ∈ (d.journal s root).visited, (d.ignored? s o.place).isSome :=
    fun o ho => ignored?_of_visited hv ho
  have howned : ∀ form p, ∀ o ∈ (d.journal s root).visited.filter (·.ownedBy d form p),
      (d.ignored? s o.place).isSome := fun form p o ho => hreadable o (List.mem_of_mem_filter ho)
  have htrees : w.tree = (v.recount d s t (d.journal s root)).tree := by
    refine ScopeTree.ext ?_ ?_ hopen ?_ hopenClasses hanonymous
    · exact Scope.eq_recount standard h hreadable hmodule hsFunctions.module htFunctions.module
    · refine eq_zipWith_of_forall (tracks_of_walk hv).length_functions.symm ?_ ?_
      · rw [← List.length_map Scope.uncounted, hfunctions, List.length_map]
      · intro k o f g ho hf hg
        obtain ⟨f', hf', hbelongs⟩ := hsFunctions.functions k o ho
        obtain ⟨g', hg', hbelongs'⟩ := htFunctions.functions k o ho
        cases hf.symm.trans hf'
        cases hg.symm.trans hg'
        exact Scope.eq_recount standard h (howned .function o) (apply_eq_of_map_eq hfunctions hf hg)
          hbelongs.collects hbelongs'.collects
    · refine eq_zipWith_of_forall (tracks_of_walk hv).length_classes.symm ?_ ?_
      · rw [← List.length_map ClassScope.uncounted, hclasses, List.length_map]
      · intro k o b c ho hb hc
        obtain ⟨b', hb', hbelongs⟩ := hsClasses k o ho
        obtain ⟨c', hc', hbelongs'⟩ := htClasses k o ho
        cases hb.symm.trans hb'
        cases hc.symm.trans hc'
        obtain ⟨hscope, hsuper, hdepth, hmethods⟩ :=
          ClassScope.uncounted_eq_iff.mp (apply_eq_of_map_eq hclasses hb hc)
        rw [← Scope.eq_recount standard h (howned .classBody o) hscope hbelongs.collects
          hbelongs'.collects, ← hsuper, ← hdepth, ← hmethods]
  cases w
  cases v
  simp only [Walk.recount, Walk.mk.injEq]
  exact ⟨htrees, hfound, herrors, hunsupported⟩

/-- What the flags that change a count do, and nothing else. Under settings that differ in these
flags, by the rules of a dialect that is there from the start, both traversals of a tree fail with
the same error or both come to their ends with the same walk, recounted: the module, each function
and each class has other counts by what the flags change at the nodes that it has counted. That is
one for each node that a flag governs which is turned on or off. -/
theorem flags_recount (standard : (name, d) ∈ Registry.standard.entries)
    (h : s.DifferIn Flag.countFlags t) (root : Document) :
    let j := d.journal s root
    Agree (fun v w =>
        v.tree.functions.length = (j.opened .function).length ∧
        v.tree.classes.length = (j.opened .classBody).length ∧
        w = v.recount d s t j)
      (d.walk s root) (d.walk t root) ∧
    (s.on .logicalor = true → t.on .logicalor = false →
      (∀ f ∈ Flag.pathFlags, f ≠ .logicalor → t.on f = s.on f) →
      ∀ vs : List Occurrence, Flag.pathShift s t vs =
        -(vs.countP fun o => Flag.logicalor.governs o.place.node : Nat)) := by
  intro j
  refine ⟨?_, Flag.pathShift_of_logicalor_off⟩
  have hagree : Agree (fun v w : Walk => w.uncounted = v.uncounted)
      (d.walk s root) (d.walk t root) :=
    walks_agree (fun _ => rfl) (ignored?_of_differIn standard h)
      fun task v w hvw => Walk.agree_perform standard h task hvw
  refine hagree.imp_ok fun v w hv hw huncounted => ?_
  exact ⟨(tracks_of_walk hv).length_functions, (tracks_of_walk hv).length_classes,
    eq_recount_of_walks standard h hv hw huncounted⟩

end Dialect

namespace Sample

/-- A module with an import, a class whose method has a switch, an or and an assignment of an
alternative, a loop over keys and a clause that catches. -/
def branching : Document :=
  node "Program"
    [("body", .list
      [node "ImportDeclaration" [("source", node "Literal" [("value", .string "m")])],
       classWith "Chooser" "choose" (function [name "x"]
        [node "SwitchStatement"
          [("discriminant", name "x"),
           ("cases", .list
            [node "SwitchCase" [("test", name "y"), ("consequent", .list [name "y"])],
             node "SwitchCase" [("test", .null), ("consequent", .list [name "z"])]])],
         node "LogicalExpression"
          [("operator", .string "||"), ("left", name "x"), ("right", name "y")],
         node "AssignmentExpression"
          [("operator", .string "??="), ("left", name "x"), ("right", name "y")]]),
       node "ForInStatement" [("left", name "k"), ("right", name "x")],
       node "TryStatement" [("handler", node "CatchClause" [])]]),
     ("loc", location)]

/-- All of the flags that change a count, turned. -/
def turnedFlags : Settings :=
  { logicalor := .bool false
    switchcase := .bool false
    forin := .bool true
    trycatch := .bool true
    esmLloc := .bool true }

end Sample

/-- In the module with branches, the import is one more line, three paths of the method are gone,
and the module has two others in their place. -/
theorem flags_recount_branching :
    ("estree", Estree.dialect) ∈ Registry.standard.entries ∧
    Settings.DifferIn Flag.countFlags {} Sample.turnedFlags ∧
    ∃ v w, Estree.dialect.walk {} Sample.branching = .ok v ∧
      Estree.dialect.walk Sample.turnedFlags Sample.branching = .ok w ∧
      w = v.recount Estree.dialect {} Sample.turnedFlags
        (Estree.dialect.journal {} Sample.branching) ∧
      w.tree.module.logical = v.tree.module.logical + 1 ∧
      w.tree.module.cyclomatic = v.tree.module.cyclomatic - 1 ∧
      w.tree.functions.map Scope.cyclomatic = [1] ∧
      v.tree.functions.map Scope.cyclomatic = [4] := by
  have hstandard : ("estree", Estree.dialect) ∈ Registry.standard.entries := List.mem_cons_self
  have hdiffer : Settings.DifferIn Flag.countFlags {} Sample.turnedFlags := by
    refine ⟨fun f hf => ?_, rfl, rfl⟩
    cases f <;> first | rfl | exact absurd (by decide) hf
  have hcounts : (Estree.dialect.walk {} Sample.branching).toOption.map
      (fun w => (w.tree.module.logical, w.tree.module.cyclomatic,
        w.tree.functions.map Scope.cyclomatic)) = some (8, 5, [4]) := by
    decide +kernel
  have hturned : (Estree.dialect.walk Sample.turnedFlags Sample.branching).toOption.map
      (fun w => (w.tree.module.logical, w.tree.module.cyclomatic,
        w.tree.functions.map Scope.cyclomatic)) = some (9, 4, [1]) := by
    decide +kernel
  obtain ⟨v, hv, hpair⟩ := exists_ok_of_map_toOption hcounts
  obtain ⟨w, hw, hpair'⟩ := exists_ok_of_map_toOption hturned
  simp only [Prod.mk.injEq] at hpair hpair'
  have hagree := (Dialect.flags_recount hstandard hdiffer Sample.branching).1
  obtain ⟨-, -, heq⟩ := hagree.rel hv hw
  refine ⟨hstandard, hdiffer, v, w, hv, hw, heq, ?_, ?_, hpair'.2.2, hpair.2.2⟩
  · rw [hpair.1, hpair'.1]
    rfl
  · rw [hpair.2.1, hpair'.2.1]
    rfl

end CodeMetrics
