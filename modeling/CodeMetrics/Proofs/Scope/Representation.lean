import CodeMetrics.Proofs.Scope.Conservation
import Mathlib.Data.List.Chain

/-!
# `CodeMetrics.Proofs.Scope.Representation`: what a tree of scopes always looks like

The scopes of a module refer to each other by index. The stacks of open functions and classes
hold indices, a scope has the index of its parent, and a class lists the indices of its
methods. `ScopeTree.Represented` says that all these indices are in order, and
`Represented.attempt` that every operation keeps this, also one that fails on the way.

Most operations change counts only. `SameOutline` says of two trees that they differ in nothing
else, and such trees are `Represented` together. What is left are the operations that open or
close a scope.

An addition that fails can leave a part of the scopes changed, but only where a sum of a whole
number and a fraction has no result. With whole counts nothing fails except closing a scope
where none is open, and a failure changes nothing (`attempt_whole`).
-/

set_option autoImplicit false

namespace CodeMetrics

/-- The place and the parameters of a function, without what it counts. -/
def Scope.outline {κ τ : Type} (f : Scope κ τ) : Nat × Option Nat × Int × List Document :=
  (f.index, f.parent, f.paramCount, f.paramNames)

/-- The place and the methods of a class, without what it counts. -/
def ClassScope.outline {κ τ : Type} (c : ClassScope κ τ) : Nat × Option Nat × List Nat :=
  (c.index, c.parent, c.methods)

namespace ScopeTree

section

variable {κ τ : Type} {t u : ScopeTree κ τ}

/-- The indices of the open functions, the outermost first. The module is below all of them. -/
def functionStack (t : ScopeTree κ τ) : List Nat :=
  0 :: t.openFunctions.reverse

/-- The indices of the open classes, the outermost first. -/
def classStack (t : ScopeTree κ τ) : List Nat :=
  t.openClasses.reverse

/-- The module and the functions are at their indices, the stack leads from the module through
open functions to the innermost one, and each is the parent of the next. -/
structure FunctionsInOrder (t : ScopeTree κ τ) : Prop where
  stack_first : t.functionStack.head? = some 0
  stack_increasing : t.functionStack.Pairwise (· < ·)
  stack_valid : ∀ i ∈ t.functionStack, i < t.scopes.length
  stack_parents : t.functionStack.IsChain fun below entry =>
    ∃ f, t.scopes[entry]? = some f ∧ f.parent = some below
  scopes_index : ∀ (i : Nat) (f : Scope κ τ), t.scopes[i]? = some f → f.index = i
  functions_parent : ∀ f ∈ t.functions, ∃ p, f.parent = some p ∧ p < f.index ∧ p < t.scopes.length
  params_counted : ∀ f ∈ t.functions, f.paramCount = f.paramNames.length

/-- The classes are at their indices, open classes are nested in the order of their indices,
and each function is a method of at most one class. -/
structure ClassesInOrder (t : ScopeTree κ τ) : Prop where
  classStack_increasing : t.classStack.Pairwise (· < ·)
  classStack_valid : ∀ i ∈ t.classStack, i < t.classes.length
  classes_index : ∀ (i : Nat) (c : ClassScope κ τ), t.classes[i]? = some c → c.index = i
  classes_parent : ∀ c ∈ t.classes, ∃ p, c.parent = some p ∧ p < t.scopes.length
  methods_increasing : ∀ c ∈ t.classes, c.methods.Pairwise (· < ·)
  methods_functions : ∀ c ∈ t.classes, ∀ i ∈ c.methods, 0 < i ∧ i < t.scopes.length
  methods_apart : ∀ (i j : Nat) (c e : ClassScope κ τ), i ≠ j → t.classes[i]? = some c →
    t.classes[j]? = some e → c.methods.Disjoint e.methods

/-- The indices in a tree of scopes are in order. -/
structure Represented (t : ScopeTree κ τ) : Prop extends FunctionsInOrder t, ClassesInOrder t

/-- A module in which nothing was opened. -/
theorem represented_start [OfNat κ 0] [OfNat κ 1] (lines : Lines κ) :
    (start lines : ScopeTree κ τ).Represented where
  stack_first := rfl
  stack_increasing := by simp [functionStack, start]
  stack_valid := by simp [functionStack, start, scopes]
  stack_parents := by simp [functionStack, start]
  scopes_index i f hf := by
    cases i with
    | zero => cases hf; rfl
    | succ i => cases hf
  functions_parent f hf := by cases hf
  params_counted f hf := by cases hf
  classStack_increasing := by simp [classStack, start]
  classStack_valid := by simp [classStack, start]
  classes_index i c hc := by cases hc
  classes_parent c hc := by cases hc
  methods_increasing c hc := by cases hc
  methods_functions c hc := by cases hc
  methods_apart i j c e _ hc := by cases hc

/-! ### Trees that differ in counts only -/

/-- The second tree has the same scopes as the first, up to what they count. -/
structure SameOutline (t u : ScopeTree κ τ) : Prop where
  index : u.module.index = t.module.index
  parent : u.module.parent = t.module.parent
  functions : u.functions.map Scope.outline = t.functions.map Scope.outline
  openFunctions : u.openFunctions = t.openFunctions
  classes : u.classes.map ClassScope.outline = t.classes.map ClassScope.outline
  openClasses : u.openClasses = t.openClasses

theorem SameOutline.refl (t : ScopeTree κ τ) : t.SameOutline t :=
  ⟨rfl, rfl, rfl, rfl, rfl, rfl⟩

theorem SameOutline.trans {v : ScopeTree κ τ} (h : t.SameOutline u) (k : u.SameOutline v) :
    t.SameOutline v :=
  ⟨k.index.trans h.index, k.parent.trans h.parent, k.functions.trans h.functions,
    k.openFunctions.trans h.openFunctions, k.classes.trans h.classes,
    k.openClasses.trans h.openClasses⟩

/-- Where two lists look the same through `g`, an item of one has a counterpart in the other. -/
theorem exists_counterpart {α β : Type} {g : α → β} {l m : List α} (h : m.map g = l.map g)
    {i : Nat} {b : α} (hb : m[i]? = some b) : ∃ a, l[i]? = some a ∧ g a = g b := by
  have hat : (l.map g)[i]? = some (g b) := by rw [← h, List.getElem?_map, hb, Option.map_some]
  rw [List.getElem?_map] at hat
  exact Option.map_eq_some_iff.mp hat

/-- Changing an item and applying a function to all items. -/
theorem map_modify {α β : Type} {g : α → β} {f : α → α} {h : β → β}
    (comm : ∀ a, g (f a) = h (g a)) (l : List α) (i : Nat) :
    (l.modify i f).map g = (l.map g).modify i h := by
  apply List.ext_getElem?
  intro k
  simp only [List.getElem?_map, List.getElem?_modify]
  cases l[k]? with
  | none => rfl
  | some a => by_cases hat : i = k <;> simp [hat, comm]

/-- A change that `g` does not see leaves the view of a list through `g` as it is. -/
theorem map_modify_of_unseen {α β : Type} {g : α → β} {f : α → α} (unseen : ∀ a, g (f a) = g a)
    (l : List α) (i : Nat) : (l.modify i f).map g = l.map g := by
  rw [map_modify (h := id) unseen, List.modify_id]

theorem SameOutline.length_scopes (same : t.SameOutline u) :
    u.scopes.length = t.scopes.length := by
  simpa [scopes] using congrArg List.length same.functions

/-- A scope at an index is at the same place in a tree with the same outline. -/
theorem SameOutline.exists_scope (same : t.SameOutline u) {i : Nat} {g : Scope κ τ}
    (hg : u.scopes[i]? = some g) :
    ∃ f, t.scopes[i]? = some f ∧ f.index = g.index ∧ f.parent = g.parent := by
  cases i with
  | zero =>
    cases hg
    exact ⟨t.module, rfl, same.index.symm, same.parent.symm⟩
  | succ i =>
    obtain ⟨f, hf, hsame⟩ := exists_counterpart same.functions hg
    simp only [Scope.outline, Prod.mk.injEq] at hsame
    exact ⟨f, hf, hsame.1, hsame.2.1⟩

theorem SameOutline.symm (same : t.SameOutline u) : u.SameOutline t :=
  ⟨same.index.symm, same.parent.symm, same.functions.symm, same.openFunctions.symm,
    same.classes.symm, same.openClasses.symm⟩

/-- The functions of trees with the same outline are in order together. -/
theorem FunctionsInOrder.of_sameOutline (h : t.FunctionsInOrder) (same : t.SameOutline u) :
    u.FunctionsInOrder := by
  have hstack : u.functionStack = t.functionStack := by
    rw [functionStack, functionStack, same.openFunctions]
  -- An outline has the index, the parent and the parameters, which is all that is asked of a
  -- function.
  have function_of : ∀ g ∈ u.functions, ∃ f ∈ t.functions, f.outline = g.outline := by
    intro g hg
    obtain ⟨i, hi⟩ := List.getElem?_of_mem hg
    obtain ⟨f, hf, hsame⟩ := exists_counterpart same.functions hi
    exact ⟨f, List.mem_of_getElem? hf, hsame⟩
  refine
    { stack_first := rfl
      stack_increasing := hstack ▸ h.stack_increasing
      stack_valid := by rw [hstack, same.length_scopes]; exact h.stack_valid
      stack_parents := ?_, scopes_index := ?_, functions_parent := ?_, params_counted := ?_ }
  · rw [hstack]
    refine h.stack_parents.imp fun below entry ⟨f, hf, hparent⟩ => ?_
    obtain ⟨g, hg, -, hsame⟩ := same.symm.exists_scope hf
    exact ⟨g, hg, hsame.trans hparent⟩
  · intro i g hg
    obtain ⟨f, hf, hsame, -⟩ := same.exists_scope hg
    exact hsame.symm.trans (h.scopes_index i f hf)
  · intro g hg
    obtain ⟨f, hf, hsame⟩ := function_of g hg
    simp only [Scope.outline, Prod.mk.injEq] at hsame
    rw [← hsame.1, ← hsame.2.1, same.length_scopes]
    exact h.functions_parent f hf
  · intro g hg
    obtain ⟨f, hf, hsame⟩ := function_of g hg
    simp only [Scope.outline, Prod.mk.injEq] at hsame
    rw [← hsame.2.2.1, ← hsame.2.2.2]
    exact h.params_counted f hf

/-- The classes of trees with the same outline are in order together. -/
theorem ClassesInOrder.of_sameOutline (h : t.ClassesInOrder) (same : t.SameOutline u) :
    u.ClassesInOrder := by
  have hstack : u.classStack = t.classStack := by rw [classStack, classStack, same.openClasses]
  have hlength : u.classes.length = t.classes.length := by
    simpa using congrArg List.length same.classes
  -- The outline of a class is its index, its parent and its methods, and the clauses speak of
  -- nothing else.
  have class_at : ∀ (i : Nat) (e : ClassScope κ τ), u.classes[i]? = some e →
      ∃ c, t.classes[i]? = some c ∧ c.index = e.index ∧ c.parent = e.parent ∧
        c.methods = e.methods := by
    intro i e he
    simpa [ClassScope.outline] using exists_counterpart same.classes he
  have class_of : ∀ e ∈ u.classes, ∃ c ∈ t.classes, c.parent = e.parent ∧
      c.methods = e.methods := by
    intro e he
    obtain ⟨i, hi⟩ := List.getElem?_of_mem he
    obtain ⟨c, hc, -, hsame⟩ := class_at i e hi
    exact ⟨c, List.mem_of_getElem? hc, hsame⟩
  refine
    { classStack_increasing := hstack ▸ h.classStack_increasing
      classStack_valid := by rw [hstack, hlength]; exact h.classStack_valid
      classes_index := ?_, classes_parent := ?_, methods_increasing := ?_
      methods_functions := ?_, methods_apart := ?_ }
  · intro i e he
    obtain ⟨c, hc, hsame, -⟩ := class_at i e he
    exact hsame.symm.trans (h.classes_index i c hc)
  · intro e he
    obtain ⟨c, hc, hparent, -⟩ := class_of e he
    rw [← hparent, same.length_scopes]
    exact h.classes_parent c hc
  · intro e he
    obtain ⟨c, hc, -, hmethods⟩ := class_of e he
    exact hmethods ▸ h.methods_increasing c hc
  · intro e he
    obtain ⟨c, hc, -, hmethods⟩ := class_of e he
    rw [← hmethods, same.length_scopes]
    exact h.methods_functions c hc
  · intro i j e e' hne he he'
    obtain ⟨c, hc, -, -, hmethods⟩ := class_at i e he
    obtain ⟨c', hc', -, -, hmethods'⟩ := class_at j e' he'
    rw [← hmethods, ← hmethods']
    exact h.methods_apart i j c c' hne hc hc'

/-- Trees with the same outline are in order together. -/
theorem Represented.of_sameOutline (h : t.Represented) (same : t.SameOutline u) :
    u.Represented :=
  ⟨h.toFunctionsInOrder.of_sameOutline same, h.toClassesInOrder.of_sameOutline same⟩

/-- A change of one function that keeps its outline. -/
theorem sameOutline_modifyFunction (t : ScopeTree κ τ) {f : Scope κ τ → Scope κ τ}
    (unseen : ∀ s, (f s).outline = s.outline) : t.SameOutline (t.modifyFunction f) := by
  unfold modifyFunction
  split
  · exact SameOutline.refl t
  · exact { SameOutline.refl t with functions := map_modify_of_unseen unseen t.functions _ }

/-- A change of what one class counts. -/
theorem sameOutline_modifyClass (t : ScopeTree κ τ) {f : Scope κ τ → Scope κ τ}
    (unseen : ∀ s, (f s).outline = s.outline) :
    t.SameOutline (t.modifyClass fun c => { c with toScope := f c.toScope }) := by
  unfold modifyClass
  split
  · exact SameOutline.refl t
  · refine { SameOutline.refl t with classes := map_modify_of_unseen (fun c => ?_) t.classes _ }
    have hplace := unseen c.toScope
    simp only [Scope.outline, Prod.mk.injEq] at hplace
    simp only [ClassScope.outline, hplace.1, hplace.2.1]

/-- A contribution that ends at the first scope that refuses it changes counts only. -/
theorem sameOutline_spread (t : ScopeTree κ τ) (refuses : Scope κ τ → Bool)
    {f : Scope κ τ → Scope κ τ} (unseen : ∀ s, (f s).outline = s.outline) :
    t.SameOutline (t.spread refuses f).2 := by
  have hplace := unseen t.module
  simp only [Scope.outline, Prod.mk.injEq] at hplace
  have inModule : t.SameOutline { t with module := f t.module } :=
    { SameOutline.refl t with index := hplace.1, parent := hplace.2.1 }
  have inClass := inModule.trans (sameOutline_modifyClass _ unseen)
  simp only [spread]
  split
  · exact SameOutline.refl t
  · split
    · exact inModule
    · split
      · exact inClass
      · exact inClass.trans (sameOutline_modifyFunction _ unseen)

/-- A contribution changes counts only. -/
theorem sameOutline_contribute (t : ScopeTree κ τ) {f : Scope κ τ → Scope κ τ}
    (unseen : ∀ s, (f s).outline = s.outline) : t.SameOutline (t.contribute f) := by
  have hspread := sameOutline_spread t (fun _ => false) unseen
  rwa [spread_eq_contribute _ _ _ fun _ => rfl] at hspread

/-! ### Opening a function -/

/-- The innermost open function is at the top of the stack. -/
theorem getLast?_functionStack (t : ScopeTree κ τ) :
    t.functionStack.getLast? = some t.currentIndex := by
  unfold functionStack currentIndex
  cases t.openFunctions with
  | nil => rfl
  | cons i rest =>
    rw [List.reverse_cons, ← List.cons_append]
    exact List.getLast?_concat

/-- The innermost open function is among the scopes. -/
theorem FunctionsInOrder.currentIndex_lt (h : t.FunctionsInOrder) :
    t.currentIndex < t.scopes.length :=
  h.stack_valid _ (List.mem_of_getLast? t.getLast?_functionStack)

section

variable [Add κ] [OfNat κ 0] [OfNat κ 1]

/-- The scopes that were there before a function was opened are at their places. -/
theorem exists_scope_push {i : Nat} {f : Scope κ τ} (hf : t.scopes[i]? = some f)
    (name : Option Document) (lines : Lines κ) (params : List Document) :
    ∃ g, (t.push name lines params).scopes[i]? = some g ∧ g.index = f.index ∧
      g.parent = f.parent := by
  obtain ⟨own, hfunctions⟩ := functions_push t name lines params
  cases i with
  | zero =>
    obtain rfl : t.module = f := Option.some.inj hf
    exact ⟨t.module.addFunction params.length, by simp [scopes], rfl, rfl⟩
  | succ i =>
    rw [scopes, List.getElem?_cons_succ] at hf
    have hi : i < t.functions.length := (List.getElem?_eq_some_iff.mp hf).1
    refine ⟨f, ?_, rfl, rfl⟩
    rw [scopes, List.getElem?_cons_succ, hfunctions, List.getElem?_append_left hi, hf]

/-- A scope after a function was opened is one that was there, or the function. -/
theorem scope_of_push {i : Nat} {g : Scope κ τ} {name : Option Document} {lines : Lines κ}
    {params : List Document} (hg : (t.push name lines params).scopes[i]? = some g) :
    (∃ f, t.scopes[i]? = some f ∧ f.index = g.index) ∨
      i = t.functions.length + 1 ∧ g.index = t.functions.length + 1 ∧
        g.parent = some t.currentIndex := by
  obtain ⟨own, hfunctions⟩ := functions_push t name lines params
  cases i with
  | zero =>
    obtain rfl : _ = g := Option.some.inj hg
    exact Or.inl ⟨t.module, rfl, by rw [module_push]; rfl⟩
  | succ i =>
    rw [scopes, List.getElem?_cons_succ, hfunctions] at hg
    rcases Nat.lt_trichotomy i t.functions.length with hi | rfl | hi
    · rw [List.getElem?_append_left hi] at hg
      exact Or.inl ⟨g, hg, rfl⟩
    · rw [List.getElem?_concat_length] at hg
      cases hg
      exact Or.inr ⟨rfl, rfl, rfl⟩
    · rw [List.getElem?_eq_none (by simp; omega)] at hg
      cases hg

/-- The functions are in order after opening one. Its index is larger than all others. -/
theorem FunctionsInOrder.push (h : t.FunctionsInOrder) (name : Option Document) (lines : Lines κ)
    (params : List Document) : (t.push name lines params).FunctionsInOrder := by
  have hcurrent := h.currentIndex_lt
  have hsize : t.scopes.length = t.functions.length + 1 := rfl
  obtain ⟨own, hfunctions⟩ := functions_push t name lines params
  have hstack : (t.push name lines params).functionStack =
      t.functionStack ++ [t.functions.length + 1] := by
    simp [functionStack]
  have hlength : (t.push name lines params).scopes.length = t.functions.length + 2 := by
    simp [scopes, hfunctions]
  refine
    { stack_first := rfl, stack_increasing := ?_, stack_valid := ?_, stack_parents := ?_
      scopes_index := ?_, functions_parent := ?_, params_counted := ?_ }
  -- All indices so far are below the number of scopes, which is the index of the new one.
  · rw [hstack, List.pairwise_append]
    refine ⟨h.stack_increasing, List.pairwise_singleton _ _, fun i hi j hj => ?_⟩
    rw [List.mem_singleton.mp hj, ← hsize]
    exact h.stack_valid i hi
  · rw [hstack, hlength, List.forall_mem_append, List.forall_mem_singleton]
    refine ⟨fun i hi => ?_, by omega⟩
    have := h.stack_valid i hi
    omega
  · rw [hstack, List.isChain_append]
    refine ⟨?_, List.isChain_singleton _, ?_⟩
    · refine h.stack_parents.imp fun below entry ⟨f, hf, hparent⟩ => ?_
      obtain ⟨g, hg, -, hsame⟩ := exists_scope_push hf name lines params
      exact ⟨g, hg, hsame.trans hparent⟩
    -- The new function is linked to the one that was the innermost.
    · intro below hbelow entry hentry
      rw [getLast?_functionStack] at hbelow
      obtain rfl : t.currentIndex = below := Option.some.inj hbelow
      obtain rfl : t.functions.length + 1 = entry := Option.some.inj hentry
      rw [scopes, List.getElem?_cons_succ, hfunctions, List.getElem?_concat_length]
      exact ⟨_, rfl, rfl⟩
  · intro i g hg
    rcases scope_of_push hg with ⟨f, hf, hindex⟩ | ⟨rfl, hindex, -⟩
    · exact hindex.symm.trans (h.scopes_index i f hf)
    · exact hindex
  · rw [hfunctions, hlength, List.forall_mem_append, List.forall_mem_singleton]
    refine ⟨fun f hf => ?_, t.currentIndex, rfl, hcurrent, by omega⟩
    obtain ⟨p, hparent, hbelow, hvalid⟩ := h.functions_parent f hf
    exact ⟨p, hparent, hbelow, by omega⟩
  · rw [hfunctions, List.forall_mem_append, List.forall_mem_singleton]
    exact ⟨h.params_counted, rfl⟩

/-- A class after opening a function. It may have one method more, if it is the innermost open
one. -/
theorem exists_class_of_push {name : Option Document} {lines : Lines κ} {params : List Document}
    {k : Nat} {c : ClassScope κ τ} (hc : (t.push name lines params).classes[k]? = some c) :
    ∃ e, t.classes[k]? = some e ∧ e.index = c.index ∧ e.parent = c.parent ∧
      (c.methods = e.methods ∨
        c.methods = e.methods ++ [t.functions.length + 1] ∧ t.openClasses.head? = some k) := by
  rw [classes_push, getElem?_modifyClass] at hc
  obtain ⟨e, he, rfl⟩ := Option.map_eq_some_iff.mp hc
  refine ⟨e, he, ?_⟩
  by_cases htop : t.openClasses.head? = some k
  · rw [if_pos htop]
    refine ⟨rfl, rfl, ?_⟩
    by_cases hdepth : e.depth = t.depth
    · exact Or.inr ⟨if_pos hdepth, htop⟩
    · exact Or.inl (if_neg hdepth)
  · rw [if_neg htop]
    exact ⟨rfl, rfl, Or.inl rfl⟩

/-- The classes are in order after opening a function. Its index is larger than those of all
methods, so it is no method yet and can only come last. -/
theorem ClassesInOrder.push (h : t.ClassesInOrder) (name : Option Document) (lines : Lines κ)
    (params : List Document) : (t.push name lines params).ClassesInOrder := by
  have hsize : t.scopes.length = t.functions.length + 1 := rfl
  have hlength : (t.push name lines params).scopes.length = t.functions.length + 2 := by
    obtain ⟨own, hfunctions⟩ := functions_push t name lines params
    simp [scopes, hfunctions]
  have hstack : (t.push name lines params).classStack = t.classStack := by simp [classStack]
  have class_of : ∀ c ∈ (t.push name lines params).classes, ∃ e ∈ t.classes,
      e.parent = c.parent ∧
        (c.methods = e.methods ∨ c.methods = e.methods ++ [t.functions.length + 1]) := by
    intro c hc
    obtain ⟨k, hk⟩ := List.getElem?_of_mem hc
    obtain ⟨e, he, -, hparent, hmethods⟩ := exists_class_of_push hk
    exact ⟨e, List.mem_of_getElem? he, hparent, hmethods.imp_right And.left⟩
  have methods_le : ∀ {k : Nat} {e : ClassScope κ τ}, t.classes[k]? = some e →
      ∀ i ∈ e.methods, i ≤ t.functions.length := by
    intro k e he i hi
    have := h.methods_functions e (List.mem_of_getElem? he) i hi
    omega
  refine
    { classStack_increasing := hstack ▸ h.classStack_increasing
      classStack_valid := by
        rw [hstack, classes_push, length_modifyClass]
        exact h.classStack_valid
      classes_index := ?_, classes_parent := ?_, methods_increasing := ?_
      methods_functions := ?_, methods_apart := ?_ }
  · intro k c hc
    obtain ⟨e, he, hindex, -⟩ := exists_class_of_push hc
    exact hindex.symm.trans (h.classes_index k e he)
  · intro c hc
    obtain ⟨e, he, hparent, -⟩ := class_of c hc
    obtain ⟨p, hp, hvalid⟩ := h.classes_parent e he
    exact ⟨p, hparent ▸ hp, by omega⟩
  · intro c hc
    obtain ⟨e, he, -, hmethods | hmethods⟩ := class_of c hc
    · exact hmethods ▸ h.methods_increasing e he
    · rw [hmethods, List.pairwise_append]
      refine ⟨h.methods_increasing e he, List.pairwise_singleton _ _, fun i hi j hj => ?_⟩
      have := h.methods_functions e he i hi
      rw [List.mem_singleton.mp hj]
      omega
  · intro c hc i hi
    obtain ⟨e, he, -, hmethods | hmethods⟩ := class_of c hc
    · have := h.methods_functions e he i (hmethods ▸ hi)
      omega
    · rw [hmethods, List.mem_append, List.mem_singleton] at hi
      rcases hi with hi | rfl
      · have := h.methods_functions e he i hi
        omega
      · omega
  · intro i j c c' hne hc hc'
    obtain ⟨e, he, -, -, hmethods⟩ := exists_class_of_push hc
    obtain ⟨e', he', -, -, hmethods'⟩ := exists_class_of_push hc'
    have hapart := h.methods_apart i j e e' hne he he'
    rcases hmethods with hmethods | ⟨hmethods, htop⟩ <;>
      rcases hmethods' with hmethods' | ⟨hmethods', htop'⟩ <;> rw [hmethods, hmethods']
    · exact hapart
    -- The new index is larger than all methods of the other class.
    · refine List.disjoint_append_right.mpr ⟨hapart, List.disjoint_singleton.mpr fun hin => ?_⟩
      have := methods_le he _ hin
      omega
    · refine List.disjoint_append_left.mpr ⟨hapart, List.singleton_disjoint.mpr fun hin => ?_⟩
      have := methods_le he' _ hin
      omega
    · -- Only one class is the innermost.
      exact absurd (Option.some.inj (htop.symm.trans htop')) hne

/-- Opening a function keeps the indices in order. -/
theorem Represented.push (h : t.Represented) (name : Option Document) (lines : Lines κ)
    (params : List Document) : (t.push name lines params).Represented :=
  ⟨h.toFunctionsInOrder.push name lines params, h.toClassesInOrder.push name lines params⟩

end

/-! ### Opening a class and closing -/

/-- Opening a class keeps the indices in order. It has no methods yet. -/
theorem Represented.openClass [OfNat κ 0] [OfNat κ 1] (h : t.Represented)
    (name superName : Option Document) (lines : Lines κ) :
    (t.openClass name superName lines).Represented := by
  have hcurrent := h.currentIndex_lt
  -- The new class is the last one and has the largest index.
  have class_at : ∀ (i : Nat) (c : ClassScope κ τ),
      (t.openClass name superName lines).classes[i]? = some c →
        t.classes[i]? = some c ∨ i = t.classes.length ∧ c.index = t.classes.length ∧
          c.methods = [] := by
    intro i c hc
    rw [ScopeTree.openClass] at hc
    rcases Nat.lt_trichotomy i t.classes.length with hi | rfl | hi
    · rw [List.getElem?_append_left hi] at hc
      exact Or.inl hc
    · rw [List.getElem?_concat_length] at hc
      cases hc
      exact Or.inr ⟨rfl, rfl, rfl⟩
    · rw [List.getElem?_eq_none (by simp; omega)] at hc
      cases hc
  have hclasses : ∀ P : ClassScope κ τ → Prop, (∀ c ∈ t.classes, P c) →
      (∀ c : ClassScope κ τ, c.parent = some t.currentIndex → c.methods = [] → P c) →
      ∀ c ∈ (t.openClass name superName lines).classes, P c := by
    intro P hold hnew
    rw [ScopeTree.openClass, List.forall_mem_append, List.forall_mem_singleton]
    exact ⟨hold, hnew _ rfl rfl⟩
  refine
    { h.toFunctionsInOrder with
      classStack_increasing := ?_
      classStack_valid := ?_
      classes_index := ?_
      classes_parent := hclasses _ h.classes_parent fun c hparent _ => ⟨_, hparent, hcurrent⟩
      methods_increasing := hclasses _ h.methods_increasing fun c _ hnone => by simp [hnone]
      methods_functions := hclasses _ h.methods_functions fun c _ hnone => by simp [hnone]
      methods_apart := ?_ }
  · rw [classStack, ScopeTree.openClass, List.reverse_cons, List.pairwise_append]
    refine ⟨h.classStack_increasing, List.pairwise_singleton _ _, fun i hi j hj => ?_⟩
    rw [List.mem_singleton.mp hj]
    exact h.classStack_valid i hi
  · rw [classStack, ScopeTree.openClass, List.reverse_cons, List.forall_mem_append,
      List.forall_mem_singleton, List.length_append, List.length_singleton]
    refine ⟨fun i hi => ?_, by omega⟩
    have := h.classStack_valid i hi
    omega
  · intro i c hc
    rcases class_at i c hc with hold | ⟨rfl, hindex, -⟩
    · exact h.classes_index i c hold
    · exact hindex
  · intro i j c e hne hc he
    rcases class_at i c hc with hold | ⟨-, -, hnone⟩
    · rcases class_at j e he with hold' | ⟨-, -, hnone⟩
      · exact h.methods_apart i j c e hne hold hold'
      · simp [hnone]
    · simp [hnone]

/-- Closing a function keeps the indices in order. -/
theorem Represented.closeFunction (h : t.Represented) :
    ({ t with openFunctions := t.openFunctions.tail } : ScopeTree κ τ).Represented := by
  -- What is left of the stack is a beginning of it, and everything that holds along the whole
  -- holds along a beginning.
  obtain ⟨top, hstack⟩ : ∃ top, t.functionStack =
      ({ t with openFunctions := t.openFunctions.tail } : ScopeTree κ τ).functionStack ++ top := by
    unfold functionStack
    cases t.openFunctions with
    | nil => exact ⟨[], rfl⟩
    | cons i rest => exact ⟨[i], by simp⟩
  have hincreasing := h.stack_increasing
  have hvalid := h.stack_valid
  have hparents := h.stack_parents
  rw [hstack] at hincreasing hvalid hparents
  exact
    { h with
      stack_first := rfl
      stack_increasing := (List.pairwise_append.mp hincreasing).1
      stack_valid := (List.forall_mem_append.mp hvalid).1
      stack_parents := (List.isChain_append.mp hparents).1 }

/-- Closing a class keeps the indices in order. -/
theorem Represented.closeClass (h : t.Represented) :
    ({ t with openClasses := t.openClasses.tail } : ScopeTree κ τ).Represented := by
  obtain ⟨top, hstack⟩ : ∃ top, t.classStack =
      ({ t with openClasses := t.openClasses.tail } : ScopeTree κ τ).classStack ++ top := by
    unfold classStack
    cases t.openClasses with
    | nil => exact ⟨[], rfl⟩
    | cons i rest => exact ⟨[i], by simp⟩
  have hincreasing := h.classStack_increasing
  have hvalid := h.classStack_valid
  rw [hstack] at hincreasing hvalid
  exact
    { h with
      classStack_increasing := (List.pairwise_append.mp hincreasing).1
      classStack_valid := (List.forall_mem_append.mp hvalid).1 }

end

/-! ### Any sequence of operations -/

section

variable {τ : Type} [BEq τ] {t : ScopeTree Number τ}

/-- The tree after some operations on numbers of any sort. What a failed operation has changed
stays. -/
def attemptAll (t : ScopeTree Number τ) (ops : List (Op Number τ)) : ScopeTree Number τ :=
  ops.foldl (fun t op => (t.attempt op).2) t

omit [BEq τ] in
/-- An addition changes counts only, however far it gets. -/
theorem sameOutline_addNumber (t : ScopeTree Number τ) (n : Number)
    (counted : Scope Number τ → Number) {f : Scope Number τ → Scope Number τ}
    (unseen : ∀ s, (f s).outline = s.outline) : t.SameOutline (t.addNumber n counted f).2 := by
  unfold addNumber
  split
  · exact SameOutline.refl t
  · exact sameOutline_spread t _ unseen

/-- An operation keeps the indices in order, whether it fails or not. -/
theorem Represented.attempt (h : t.Represented) (op : Op Number τ) :
    (t.attempt op).2.Represented := by
  cases op with
  | push name lines params => exact h.push name lines params
  | pop =>
    unfold ScopeTree.attempt apply
    cases hpop : t.pop with
    | ok after => exact pop_eq_ok hpop ▸ h.closeFunction
    | error cause => exact h
  | openClass name superName lines => exact h.openClass name superName lines
  | closeClass =>
    unfold ScopeTree.attempt apply
    cases hclose : t.closeClass with
    | ok after => exact closeClass_eq_ok hclose ▸ h.closeClass
    | error cause => exact h
  | addLogical n => exact h.of_sameOutline (sameOutline_addNumber t n _ fun _ => rfl)
  | addCyclomatic n => exact h.of_sameOutline (sameOutline_addNumber t n _ fun _ => rfl)
  | addOperator token => exact h.of_sameOutline (sameOutline_contribute t fun _ => rfl)
  | addOperand token => exact h.of_sameOutline (sameOutline_contribute t fun _ => rfl)
  | nextAnonymousName => exact { h with }

/-- Closing a scope where none is open changes nothing, whatever the counts are. -/
theorem attempt_of_scopeError {op : Op Number τ} {cause : ScopeError}
    (h : (t.attempt op).1 = some (.scope cause)) : (t.attempt op).2 = t := by
  -- An addition may fail as well, but for another reason.
  have added : ∀ (n : Number) (counted : Scope Number τ → Number)
      (f : Scope Number τ → Scope Number τ),
      (t.addNumber n counted f).1 ≠ some (.scope cause) := by
    intro n counted f
    simp only [addNumber]
    split
    · simp
    · split <;> simp
  generalize hresult : t.attempt op = result at h ⊢
  unfold ScopeTree.attempt at hresult
  split at hresult
  · subst hresult
    exact absurd h (added _ _ _)
  · subst hresult
    exact absurd h (added _ _ _)
  · split at hresult
    · subst hresult
      cases h
    · subst hresult
      rfl

/-- The indices are in order after any operations. -/
theorem represented_attemptAll (h : t.Represented) (ops : List (Op Number τ)) :
    (t.attemptAll ops).Represented := by
  induction ops generalizing t with
  | nil => exact h
  | cons op rest ih => exact ih (h.attempt op)

end

/-! ### Whole counts -/

section

variable {τ : Type}

/-- An operation with whole numbers, as one with numbers of any sort. -/
def Op.whole : Op Int τ → Op Number τ
  | .push name lines params => .push name (lines.map .int) params
  | .pop => .pop
  | .openClass name superName lines => .openClass name superName (lines.map .int)
  | .closeClass => .closeClass
  | .addLogical n => .addLogical (.int n)
  | .addCyclomatic n => .addCyclomatic (.int n)
  | .addOperator token => .addOperator token
  | .addOperand token => .addOperand token
  | .nextAnonymousName => .nextAnonymousName

/-- A tree that counts in whole numbers, as one that counts in numbers of any sort. -/
def whole (t : ScopeTree Int τ) : ScopeTree Number τ :=
  t.map .int id

/-- Changing a function of a tree of whole counts. -/
theorem whole_modifyFunction (t : ScopeTree Int τ) {f : Scope Int τ → Scope Int τ}
    {g : Scope Number τ → Scope Number τ}
    (comm : ∀ s, (f s).map Number.int id = g (s.map .int id)) :
    (t.modifyFunction f).whole = t.whole.modifyFunction g := by
  cases t with
  | mk module functions openFunctions classes openClasses anonymous =>
    cases openFunctions <;> simp [whole, modifyFunction, map, map_modify comm]

/-- Changing a class of a tree of whole counts. -/
theorem whole_modifyClass (t : ScopeTree Int τ) {f : ClassScope Int τ → ClassScope Int τ}
    {g : ClassScope Number τ → ClassScope Number τ}
    (comm : ∀ c, (f c).map Number.int id = g (c.map .int id)) :
    (t.modifyClass f).whole = t.whole.modifyClass g := by
  cases t with
  | mk module functions openFunctions classes openClasses anonymous =>
    cases openClasses <;> simp [whole, modifyClass, map, map_modify comm]

/-- A contribution to a tree of whole counts. -/
theorem whole_contribute (t : ScopeTree Int τ) {f : Scope Int τ → Scope Int τ}
    {g : Scope Number τ → Scope Number τ}
    (comm : ∀ s, (f s).map Number.int id = g (s.map .int id)) :
    (t.contribute f).whole = t.whole.contribute g := by
  have inModule : ({ t with module := f t.module } : ScopeTree Int τ).whole =
      { t.whole with module := g t.whole.module } := by
    simp only [whole, map, comm]
  rw [contribute, contribute, whole_modifyFunction _ comm, whole_modifyClass, inModule]
  intro c
  simp only [ClassScope.map, comm]

/-- Opening a function in a tree of whole counts. -/
theorem whole_push (t : ScopeTree Int τ) (name : Option Document) (lines : Lines Int)
    (params : List Document) :
    (t.push name lines params).whole = t.whole.push name (lines.map .int) params := by
  cases t with
  | mk module functions openFunctions classes openClasses anonymous =>
    cases openClasses with
    | nil =>
      cases name <;>
        simp only [whole, push, modifyClass, map, nextAnonymousName, List.map_append,
          List.length_map] <;>
        rfl
    | cons i rest =>
      -- The open class enrolls the function, which its counts do not see.
      have commClass := map_modify (g := fun c : ClassScope Int τ => c.map Number.int id)
        (f := enroll params.length openFunctions.length (functions.length + 1))
        (h := enroll params.length openFunctions.length (functions.length + 1))
        (fun _ => rfl) classes i
      cases name <;>
        simp only [whole, push, modifyClass, map, nextAnonymousName, List.map_append,
          List.length_map, mk.injEq, and_true, true_and] <;>
        exact ⟨rfl, rfl, commClass⟩

/-- A contribution that none of the open scopes refuses. -/
theorem spread_of_accepted {κ : Type} (t : ScopeTree κ τ) (refuses : Scope κ τ → Bool)
    (f : Scope κ τ → Scope κ τ) (hmodule : refuses t.module = false)
    (hclass : ∀ c, t.currentClass? = some c → refuses c.toScope = false)
    (hfunction : ∀ s, t.currentFunction? = some s → refuses s = false) :
    t.spread refuses f = (true, t.contribute f) := by
  -- The scopes are asked one after the other, each after the earlier ones have changed.
  have hclass' : (({ t with module := f t.module } : ScopeTree κ τ).currentClass?.any
      fun c => refuses c.toScope) = false := by
    change t.currentClass?.any (fun c => refuses c.toScope) = false
    cases hopen : t.currentClass? with
    | none => rfl
    | some c => exact hclass c hopen
  have hfunction' : ((({ t with module := f t.module } : ScopeTree κ τ).modifyClass
      fun c => { c with toScope := f c.toScope }).currentFunction?.any refuses) = false := by
    have hsame : (({ t with module := f t.module } : ScopeTree κ τ).modifyClass
        fun c => { c with toScope := f c.toScope }).currentFunction? = t.currentFunction? := by
      unfold modifyClass
      split <;> rfl
    rw [hsame]
    cases hopen : t.currentFunction? with
    | none => rfl
    | some s => exact hfunction s hopen
  simp only [spread, contribute, hmodule, hclass', hfunction', Bool.false_eq_true, if_false]

/-- The innermost open class of a tree of whole counts. -/
theorem currentClass?_whole (t : ScopeTree Int τ) :
    t.whole.currentClass? = t.currentClass?.map (·.map .int id) := by
  cases t with
  | mk module functions openFunctions classes openClasses anonymous =>
    cases openClasses <;> simp [whole, map, currentClass?]

/-- The innermost open function of a tree of whole counts. -/
theorem currentFunction?_whole (t : ScopeTree Int τ) :
    t.whole.currentFunction? = t.currentFunction?.map (·.map .int id) := by
  cases t with
  | mk module functions openFunctions classes openClasses anonymous =>
    cases openFunctions <;> simp [whole, map, currentFunction?]

/-- Adding a whole number to a tree of whole counts never fails. -/
theorem addNumber_whole (t : ScopeTree Int τ) (n : Int) (counted : Scope Number τ → Number)
    (f : Scope Int τ → Scope Int τ) (g : Scope Number τ → Scope Number τ)
    (isWhole : ∀ s : Scope Int τ, ∃ k, counted (s.map .int id) = .int k)
    (comm : ∀ s, (f s).map Number.int id = g (s.map .int id)) (zero : n = 0 → f = id) :
    t.whole.addNumber (.int n) counted g = (none, (t.contribute f).whole) := by
  have accepted : ∀ s : Scope Int τ,
      (counted (s.map .int id)).clashes (.int n) = false := by
    intro s
    obtain ⟨k, hk⟩ := isWhole s
    rw [hk]
    rfl
  by_cases hzero : n = 0
  · rw [zero hzero, contribute_id, hzero]
    rfl
  -- The counts of the class and of the function are whole for the same reason as those of the
  -- module.
  · have hspread := spread_of_accepted t.whole (fun s => (counted s).clashes (.int n)) g
      (accepted t.module) ?_ ?_
    · rw [addNumber, if_neg (by simpa [Number.isZero] using hzero), hspread,
        whole_contribute t comm]
      rfl
    · intro c hc
      rw [currentClass?_whole] at hc
      obtain ⟨e, -, rfl⟩ := Option.map_eq_some_iff.mp hc
      exact accepted e.toScope
    · intro s hs
      rw [currentFunction?_whole] at hs
      obtain ⟨f, -, rfl⟩ := Option.map_eq_some_iff.mp hs
      exact accepted f

variable [BEq τ]

/-- With whole counts, an operation on numbers of any sort does what it does on whole numbers,
and fails with no scope changed. -/
theorem attempt_whole (t : ScopeTree Int τ) (op : Op Int τ) :
    t.whole.attempt op.whole =
      match t.apply op with
      | .ok after => (none, after.whole)
      | .error cause => (some (.scope cause), t.whole) := by
  cases op with
  | push name lines params => exact congrArg (Prod.mk none) (t.whole_push name lines params).symm
  | pop => cases hopen : t.openFunctions <;> simp [attempt, Op.whole, apply, pop, whole, map, hopen]
  | openClass name superName lines =>
    simp only [attempt, Op.whole, apply, openClass, whole, map, List.map_append, List.length_map]
    rfl
  | closeClass =>
    cases hopen : t.openClasses <;> simp [attempt, Op.whole, apply, closeClass, whole, map, hopen]
  --  addLogical|Adding zero changes nothing on either side, which is the last thing
  -- `addNumber_whole` asks.
  | addLogical n =>
    refine t.addNumber_whole n Scope.logical (Scope.addLogical n) (Scope.addLogical (.int n))
      (fun s => ⟨s.logical, rfl⟩) (fun _ => rfl) ?_
    rintro rfl
    funext s
    simp [Scope.addLogical]
  | addCyclomatic n =>
    refine t.addNumber_whole n Scope.cyclomatic (Scope.addCyclomatic n)
      (Scope.addCyclomatic (.int n)) (fun s => ⟨s.cyclomatic, rfl⟩) (fun _ => rfl) ?_
    rintro rfl
    funext s
    simp [Scope.addCyclomatic]
  | addOperator token =>
    refine congrArg (Prod.mk none) (t.whole_contribute fun s => ?_).symm
    simp [Scope.addOperator, Scope.map, Tally.map]
  | addOperand token =>
    refine congrArg (Prod.mk none) (t.whole_contribute fun s => ?_).symm
    simp [Scope.addOperand, Scope.map, Tally.map]
  | nextAnonymousName => rfl

end

/-- With whole counts, a sequence of operations does what it does on whole numbers. -/
theorem attemptAll_whole (t : ScopeTree Int String) (ops : List (Op Int String)) :
    t.whole.attemptAll (ops.map Op.whole) = (t.run ops).whole := by
  induction ops generalizing t with
  | nil => rfl
  | cons op rest ih =>
    have hstep : (t.whole.attempt op.whole).2 = (t.step op).whole := by
      rw [attempt_whole, step]
      cases t.apply op <;> rfl
    rw [List.map_cons, attemptAll, List.foldl_cons, hstep]
    exact ih (t.step op)

/-- The indices in a tree of scopes are in order after any operations in any order, also if some
of them fail. Closing a scope where none is open changes nothing. Where counts are whole numbers,
neither does any other operation that fails. -/
theorem indices_in_order :
    (∀ (lines : Lines Number) (ops : List (Op Number String)),
      let t := (start lines).attemptAll ops
      t.Represented ∧ ∀ (op : Op Number String) (cause : ScopeError),
        (t.attempt op).1 = some (.scope cause) → (t.attempt op).2 = t) ∧
    ∀ (lines : Lines Int) (ops : List (Op Int String)) (op : Op Int String) (e : Error),
      let t := (start (lines.map Number.int)).attemptAll (ops.map Op.whole)
      (t.attempt op.whole).1 = some e → (t.attempt op.whole).2 = t := by
  refine ⟨fun lines ops => ⟨?_, fun op cause => attempt_of_scopeError⟩, ?_⟩
  · exact represented_attemptAll (represented_start lines) ops
  · intro lines ops op e t failed
    have hwhole : t = ((start lines).run ops).whole := attemptAll_whole (start lines) ops
    rw [hwhole, attempt_whole] at failed ⊢
    cases happly : ((start lines).run ops).apply op with
    | ok after =>
      rw [happly] at failed
      cases failed
    | error cause => rfl

/-- Closing a function fails where only a class is open, and the class stays open. -/
theorem indices_in_order_pop :
    let t := (start ((⟨1, 9⟩ : Lines Int).map Number.int)).attemptAll
      ([.openClass none none ⟨2, 8⟩].map (Op.whole (τ := String)))
    (t.attempt (Op.whole .pop)).1 = some (.scope .noOpenFunction) ∧ t.openClasses = [0] ∧
      (t.attempt (Op.whole .pop)).2 = t :=
  ⟨rfl, rfl, indices_in_order.2 ⟨1, 9⟩ [.openClass none none ⟨2, 8⟩] .pop _ rfl⟩

end ScopeTree

end CodeMetrics
