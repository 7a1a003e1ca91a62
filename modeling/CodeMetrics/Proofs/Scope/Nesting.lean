import CodeMetrics.Proofs.Scope.Step
import Mathlib.Data.List.Induction
import Mathlib.Logic.Function.Basic

/-!
# `CodeMetrics.Proofs.Scope.Nesting`: scopes are closed in the order they were opened

Functions and classes are kept on two lists of open scopes, but a run has one list of
pending errands. This module shows that the three stay in step.

Which scopes a node stands in can be read off the way down to it: a step leads into the
scope of the node it starts from, unless the key is one of the scope keys of that node.
`Occurrence.nest` lists the nodes whose scopes an occurrence stands in, for each form of
scope and the innermost first. An errand fits a nest if it is carried out there, and pending
errands fit if each one does when its turn comes (`Errand.AllFit`). Replacing an errand by
what comes out of it keeps the fit (`leadsTo_next`), so the whole script of a tree fits.

`ScopeTree.Tracks` ties a tree of scopes to the errands carried out so far: the open scopes
are those of the nest, each under the number it got when it was opened. One errand keeps the
tie (`tracks_perform`), and so does a run (`tracks_performAll`).

`Dialect.scopes_nest` is the result for a whole tree.
-/

set_option autoImplicit false

namespace CodeMetrics

/-! ### The nest of an occurrence -/

/-- The form of the scope that a step down leads into, if it leads into one. -/
def Dialect.formOf (d : Dialect) (step : Descent) : Option ScopeForm :=
  match d.ruleFor step.origin.node with
  | none => none
  | some rule => if rule.scopeKeys.contains step.key then none else rule.opens

/-- The nodes above whose scopes of the given form the steps lead into, the innermost
first. -/
def Dialect.enclosing (d : Dialect) (form : ScopeForm) : List Descent → List Occurrence
  | [] => []
  | step :: above =>
    if d.formOf step = some form then ⟨step.origin, above⟩ :: d.enclosing form above
    else d.enclosing form above

/-- The nodes whose scopes are open, the innermost first. -/
abbrev Nest : Type :=
  ScopeForm → List Occurrence

/-- The nodes whose scopes an occurrence stands in. -/
def Occurrence.nest (d : Dialect) (o : Occurrence) : Nest :=
  fun form => d.enclosing form o.trail

/-- The nest with a scope opened inside. -/
def Nest.enter (n : Nest) (form : ScopeForm) (o : Occurrence) : Nest :=
  Function.update n form (o :: n form)

/-- The nest with the innermost scope of the given form closed. -/
def Nest.leave (n : Nest) (form : ScopeForm) : Nest :=
  Function.update n form (n form).tail

/-- Leaving a scope undoes entering it. -/
@[simp] theorem Nest.leave_enter (n : Nest) (form : ScopeForm) (o : Occurrence) :
    (n.enter form o).leave form = n := by
  simp [enter, leave]

/-- A child stands where its parent does, or inside the scope of its parent. -/
theorem Occurrence.nest_child (d : Dialect) (o : Occurrence) (c : Child) (number : Nat) :
    (o.child c number).nest d =
      match d.formOf { origin := o.place, number, key := c.key } with
      | none => o.nest d
      | some form => (o.nest d).enter form o := by
  funext form
  show (if d.formOf { origin := o.place, number, key := c.key } = some form
    then o :: o.nest d form else o.nest d form) = _
  cases d.formOf { origin := o.place, number, key := c.key } with
  | none => rfl
  | some other =>
    by_cases h : other = form
    · subst h
      simp [Nest.enter]
    · simp [Nest.enter, h, Function.update_of_ne (Ne.symm h)]

/-! ### Errands that fit -/

namespace Errand

/-- The nest after an errand. -/
def nest (n : Nest) : Errand → Nest
  | visit _ => n
  | openScope o _ form => n.enter form o
  | closeScope _ form => n.leave form

/-- An errand is carried out in the nest of its occurrence. A scope is closed inside of
it. -/
def Fits (d : Dialect) (n : Nest) : Errand → Prop
  | visit o => n = o.nest d
  | openScope o _ _ => n = o.nest d
  | closeScope o form => n = (o.nest d).enter form o

/-- The nest after several errands. -/
def nestAfter (n : Nest) (es : List Errand) : Nest :=
  es.foldl nest n

/-- Each errand fits when its turn comes. -/
def AllFit (d : Dialect) (n : Nest) : List Errand → Prop
  | [] => True
  | e :: rest => e.Fits d n ∧ AllFit d (e.nest n) rest

variable {d : Dialect} {s : Settings}

/-- Errands fit if the first ones do and the others fit after them. -/
theorem allFit_append {n : Nest} {a b : List Errand} :
    AllFit d n (a ++ b) ↔ AllFit d n a ∧ AllFit d (nestAfter n a) b := by
  induction a generalizing n with
  | nil =>
    show AllFit d n b ↔ True ∧ AllFit d n b
    rw [true_and]
  | cons e rest ih =>
    show e.Fits d n ∧ AllFit d (e.nest n) (rest ++ b) ↔ _
    rw [ih, ← and_assoc]
    rfl

/-- Errands fit one after the other and lead from one nest to another. -/
def LeadsTo (d : Dialect) (n : Nest) (es : List Errand) (m : Nest) : Prop :=
  AllFit d n es ∧ nestAfter n es = m

/-- Errands that lead to where others start can be joined. -/
theorem LeadsTo.append {n m k : Nest} {a b : List Errand} (ha : LeadsTo d n a m)
    (hb : LeadsTo d m b k) : LeadsTo d n (a ++ b) k := by
  obtain ⟨hfit, rfl⟩ := ha
  obtain ⟨hfit', rfl⟩ := hb
  exact ⟨allFit_append.mpr ⟨hfit, hfit'⟩, List.foldl_append⟩

/-- Visits of occurrences that stand in a nest fit there and do not change it. -/
theorem leadsTo_visits {n : Nest} {vs : List Occurrence} (h : ∀ v ∈ vs, v.nest d = n) :
    LeadsTo d n (vs.map visit) n := by
  induction vs with
  | nil => exact ⟨trivial, rfl⟩
  | cons v rest ih =>
    obtain ⟨hfit, hafter⟩ := ih fun u hu => h u (List.mem_cons_of_mem _ hu)
    exact ⟨⟨(h v List.mem_cons_self).symm, hfit⟩, hafter⟩

/-- The work below a node fits where the node stands, and leaves the nest as it was. -/
theorem leadsTo_below {rule : Rule} {o : Occurrence} (ignored : List String)
    (hrule : d.ruleFor o.place.node = some rule ∨
      d.ruleFor o.place.node = none ∧ rule.opens = none) :
    LeadsTo d (o.nest d) (below rule o ignored) (o.nest d) := by
  unfold below
  cases hopens : rule.opens with
  | none =>
    refine leadsTo_visits fun v hv => ?_
    obtain ⟨c, number, -, -, rfl⟩ := Occurrence.mem_childrenWhere.mp hv
    rw [Occurrence.nest_child]
    rcases hrule with hrule | ⟨hrule, -⟩
    · simp only [Dialect.formOf, hrule, hopens, ite_self]
    · simp only [Dialect.formOf, hrule]
  | some form =>
    have hrule : d.ruleFor o.place.node = some rule := by
      rcases hrule with hrule | ⟨-, hnone⟩
      · exact hrule
      · rw [hopens] at hnone
        cases hnone
    -- Children under scope keys stand where the node does, the others in its scope. The
    -- opening leads from the one nest to the other, and the closing leads back.
    have hout : ∀ v ∈ o.childrenWhere (o.place.node.children ignored)
        fun c => rule.scopeKeys.contains c.key, v.nest d = o.nest d := by
      intro v hv
      obtain ⟨c, number, -, hkey, rfl⟩ := Occurrence.mem_childrenWhere.mp hv
      rw [Occurrence.nest_child]
      simp only [Dialect.formOf, hrule, hkey, if_true]
    have hin : ∀ v ∈ o.childrenWhere (o.place.node.children ignored)
        fun c => !rule.scopeKeys.contains c.key, v.nest d = (o.nest d).enter form o := by
      intro v hv
      obtain ⟨c, number, -, hkey, rfl⟩ := Occurrence.mem_childrenWhere.mp hv
      rw [Bool.not_eq_true'] at hkey
      rw [Occurrence.nest_child]
      simp only [Dialect.formOf, hrule, hkey, hopens, Bool.false_eq_true, if_false]
    have hopen : LeadsTo d (o.nest d) [.openScope o rule form] ((o.nest d).enter form o) :=
      ⟨⟨rfl, trivial⟩, rfl⟩
    have hclose : LeadsTo d ((o.nest d).enter form o) [.closeScope o form] (o.nest d) :=
      ⟨⟨rfl, trivial⟩, Nest.leave_enter _ form o⟩
    exact (((leadsTo_visits hout).append hopen).append (leadsTo_visits hin)).append hclose

/-- What comes out of an errand that fits can take its place. -/
theorem leadsTo_next {n : Nest} {e : Errand} (h : e.Fits d n) :
    LeadsTo d (e.nest n) (e.next d s) (e.nest n) := by
  cases e with
  | openScope o rule form => exact ⟨trivial, rfl⟩
  | closeScope o form => exact ⟨trivial, rfl⟩
  | visit o =>
    obtain rfl : n = o.nest d := h
    simp only [next, nest]
    split
    · rename_i ignored _
      refine leadsTo_below ignored ?_
      cases d.ruleFor o.place.node with
      | none => exact Or.inr ⟨rfl, rfl⟩
      | some rule => exact Or.inl rfl
    · exact ⟨trivial, rfl⟩

/-- The script of errands that fit is one whose errands fit. -/
theorem leadsTo_script {n m : Nest} {es : List Errand} (h : LeadsTo d n es m) :
    LeadsTo d n (script d s es) m := by
  fun_induction script d s es generalizing n with
  | case1 => exact h
  | case2 e rest ih =>
    obtain ⟨⟨hfit, hrest⟩, hafter⟩ := h
    -- What comes out of `e` leads back to where it starts, so `rest` fits as before.
    have hpending := (leadsTo_next (s := s) hfit).append ⟨hrest, hafter⟩
    obtain ⟨hfits, hend⟩ := ih hpending
    exact ⟨⟨hfit, hfits⟩, hend⟩

/-- Pending errands that fit: the one whose turn it is fits the nest at that time. -/
theorem AllFit.fits {n : Nest} {before after : List Errand} {e : Errand}
    (h : AllFit d n (before ++ e :: after)) : e.Fits d (nestAfter n before) :=
  (allFit_append.mp h).2.1

/-- The nest after some errands and one more. -/
theorem nestAfter_append_singleton (n : Nest) (log : List Errand) (e : Errand) :
    nestAfter n (log ++ [e]) = e.nest (nestAfter n log) := by
  rw [nestAfter, List.foldl_append]
  rfl

/-- The openings of some errands and of others after them. -/
theorem opened_append (form : ScopeForm) (log more : List Errand) :
    opened form (log ++ more) = opened form log ++ opened form more :=
  List.filterMap_append

/-- The openings of some errands and one more. -/
theorem opened_append_singleton (form : ScopeForm) (log : List Errand) (e : Errand) :
    opened form (log ++ [e]) = opened form log ++ (e.opened? form).toList := by
  rw [opened_append]
  cases h : e.opened? form with
  | none => simp [opened, h]
  | some o => simp [opened, h]

/-- What is open after some errands was opened by them. -/
theorem mem_opened_of_mem_nestAfter {log : List Errand} {form : ScopeForm} {o : Occurrence}
    (h : o ∈ nestAfter (fun _ => []) log form) : o ∈ opened form log := by
  induction log using List.reverseRecOn with
  | nil => cases h
  | append_singleton log e ih =>
    rw [nestAfter_append_singleton] at h
    rw [opened_append_singleton, List.mem_append]
    -- Only the stack of the same form is touched, hence the case split on the form.
    cases e with
    | visit v => exact Or.inl (ih h)
    | closeScope v other =>
      by_cases heq : form = other
      · subst heq
        simp only [nest, Nest.leave, Function.update_self] at h
        exact Or.inl (ih (List.mem_of_mem_tail h))
      · simp only [nest, Nest.leave, Function.update_of_ne heq] at h
        exact Or.inl (ih h)
    | openScope v rule other =>
      by_cases heq : form = other
      · subst heq
        simp only [nest, Nest.enter, Function.update_self] at h
        rcases List.mem_cons.mp h with rfl | h
        · exact Or.inr (by simp [opened?])
        · exact Or.inl (ih h)
      · simp only [nest, Nest.enter, Function.update_of_ne heq] at h
        exact Or.inl (ih h)

end Errand

/-! ### The open scopes of a tree -/

/-- The number of the first scope of a form. Function zero is the module. -/
def ScopeForm.first : ScopeForm → Nat
  | .function => 1
  | .classBody => 0

/-- The numbers of the open scopes of a form, the innermost first. -/
def ScopeTree.openScopes {κ τ : Type} (t : ScopeTree κ τ) : ScopeForm → List Nat
  | .function => t.openFunctions
  | .classBody => t.openClasses

/-- The number that the next scope of a form gets when it is opened. -/
def ScopeTree.upcoming {κ τ : Type} (t : ScopeTree κ τ) : ScopeForm → Nat
  | .function => t.functions.length + 1
  | .classBody => t.classes.length

/-- The open scopes after an errand. -/
def Errand.openAfter (t : ScopeTree Int String) : Errand → ScopeForm → List Nat
  | visit _ => t.openScopes
  | openScope _ _ form =>
    Function.update t.openScopes form (t.upcoming form :: t.openScopes form)
  | closeScope _ form => Function.update t.openScopes form (t.openScopes form).tail

/-- The numbers of the next scopes after an errand. -/
def Errand.upcomingAfter (t : ScopeTree Int String) : Errand → ScopeForm → Nat
  | openScope _ _ form => Function.update t.upcoming form (t.upcoming form + 1)
  | visit _ | closeScope _ _ => t.upcoming

/-- Opening puts the new scope in front of the open ones, closing takes the first one away,
and visits change neither what is open nor what is there. -/
theorem Walk.outline_of_perform {d : Dialect} {s : Settings} {w after : Walk} {e : Errand}
    (h : w.perform d s e.task = .ok after) :
    after.tree.openScopes = e.openAfter w.tree ∧
      after.tree.upcoming = e.upcomingAfter w.tree := by
  -- In turn a visit, the opening of a function and of a class, and the closing of each.
  rcases perform_cases h with ⟨o, rfl, htree⟩ | ⟨o, rule, name, lines, rfl, htree⟩ |
    ⟨o, rule, name, superName, lines, rfl, htree⟩ | ⟨o, rfl, htree⟩ | ⟨o, rfl, htree⟩
  · rw [htree]
    constructor
    · funext form
      cases form <;> simp [ScopeTree.openScopes, Errand.openAfter]
    · funext form
      cases form <;> simp [ScopeTree.upcoming, Errand.upcomingAfter]
  · rw [htree]
    constructor
    · funext form
      cases form <;> simp [ScopeTree.openScopes, ScopeTree.upcoming, Errand.openAfter]
    · funext form
      cases form with
      | function =>
        obtain ⟨own, hfunctions⟩ := ScopeTree.functions_push w.tree name lines
          (o.place.node.parameters.map Document.parameterName)
        simp [ScopeTree.upcoming, hfunctions, Errand.upcomingAfter]
      | classBody => simp [ScopeTree.upcoming, Errand.upcomingAfter]
  · rw [htree]
    constructor
    · funext form
      cases form <;> simp [ScopeTree.openScopes, ScopeTree.upcoming, Errand.openAfter,
        ScopeTree.openClass]
    · funext form
      cases form <;> simp [ScopeTree.upcoming, Errand.upcomingAfter, ScopeTree.openClass]
  · rw [ScopeTree.pop_eq_ok htree]
    constructor
    · funext form
      cases form <;> simp [ScopeTree.openScopes, Errand.openAfter]
    · funext form
      cases form <;> rfl
  · rw [ScopeTree.closeClass_eq_ok htree]
    constructor
    · funext form
      cases form <;> simp [ScopeTree.openScopes, Errand.openAfter]
    · funext form
      cases form <;> rfl

/-- The number of the scope that the errands so far opened for an occurrence. -/
def Errand.numberOf (form : ScopeForm) (log : List Errand) (o : Occurrence) : Nat :=
  form.first + ((opened form log).map Occurrence.path).idxOf o.path

/-- How a tree of scopes is tied to the errands that were carried out: scopes are numbered in
the order they were opened, and those of the nest after the errands are open. -/
structure ScopeTree.Tracks (t : ScopeTree Int String) (log : List Errand) : Prop where
  upcoming : ∀ form, t.upcoming form = form.first + (Errand.opened form log).length
  openScopes : ∀ form,
    t.openScopes form = (Errand.nestAfter (fun _ => []) log form).map (Errand.numberOf form log)

namespace Errand

/-- A scope keeps its number. -/
theorem numberOf_append {form : ScopeForm} {log more : List Errand} {o : Occurrence}
    (h : o ∈ opened form log) : numberOf form (log ++ more) o = numberOf form log o := by
  rw [numberOf, opened_append, List.map_append, List.idxOf_append_of_mem (List.mem_map_of_mem h),
    numberOf]

/-- A scope that is opened for the first time gets the next number. -/
theorem numberOf_opened {form : ScopeForm} {log more : List Errand} {o : Occurrence}
    {rule : Rule}
    (hlabels : (log ++ .openScope o rule form :: more).Pairwise fun a b => a.label ≠ b.label) :
    numberOf form (log ++ .openScope o rule form :: more) o =
      form.first + (opened form log).length := by
  have hopened : opened form (log ++ .openScope o rule form :: more) =
      opened form log ++ o :: opened form more := by
    simp [opened, opened?]
  -- The path is new, so its position is after all that was opened before.
  have hfresh : o.path ∉ (opened form log).map Occurrence.path := by
    have hnodup := nodup_path_opened form hlabels
    rw [hopened, List.map_append, List.map_cons] at hnodup
    exact fun h => (List.nodup_append.mp hnodup).2.2 _ h _ List.mem_cons_self rfl
  rw [numberOf, hopened, List.map_append, List.idxOf_append_of_notMem hfresh, List.map_cons,
    List.idxOf_cons_self, List.length_map, Nat.add_zero]

end Errand

namespace ScopeTree

variable {d : Dialect} {s : Settings}

/-- There is a function for each opening. -/
theorem Tracks.length_functions {t : ScopeTree Int String} {log : List Errand}
    (h : t.Tracks log) : t.functions.length = (Errand.opened .function log).length := by
  have hupcoming : t.functions.length + 1 = 1 + _ := h.upcoming .function
  omega

/-- There is a class for each opening. -/
theorem Tracks.length_classes {t : ScopeTree Int String} {log : List Errand}
    (h : t.Tracks log) : t.classes.length = (Errand.opened .classBody log).length := by
  have hupcoming : t.classes.length = 0 + _ := h.upcoming .classBody
  omega

/-- Nothing is open at the start. -/
theorem tracks_start (lines : Lines Int) : (start lines).Tracks [] where
  upcoming form := by cases form <;> rfl
  openScopes form := by cases form <;> rfl

/-- An errand keeps the tie between the scopes and the errands carried out. -/
theorem tracks_perform {w after : Walk} {log : List Errand} {e : Errand}
    (h : w.tree.Tracks log)
    (hlabels : (log ++ [e]).Pairwise fun a b => a.label ≠ b.label)
    (hafter : w.perform d s e.task = .ok after) :
    after.tree.Tracks (log ++ [e]) := by
  obtain ⟨hopen, hupcoming⟩ := Walk.outline_of_perform hafter
  -- Scopes that are open keep their numbers.
  have hold : ∀ form, (Errand.nestAfter (fun _ => []) log form).map
      (Errand.numberOf form (log ++ [e])) = w.tree.openScopes form := by
    intro form
    rw [h.openScopes form]
    exact List.map_congr_left fun o ho =>
      Errand.numberOf_append (Errand.mem_opened_of_mem_nestAfter ho)
  constructor
  · intro form
    rw [hupcoming, Errand.opened_append_singleton, List.length_append, ← Nat.add_assoc,
      ← h.upcoming form]
    cases e with
    | visit o => rfl
    | closeScope o other => rfl
    | openScope o rule other =>
      by_cases heq : form = other
      · subst heq
        simp [Errand.upcomingAfter, Errand.opened?]
      · simp [Errand.upcomingAfter, Errand.opened?, heq, Ne.symm heq]
  · intro form
    rw [hopen, Errand.nestAfter_append_singleton]
    cases e with
    | visit o => exact (hold form).symm
    | closeScope o other =>
      by_cases heq : form = other
      · subst heq
        simp [Errand.openAfter, Errand.nest, Nest.leave, ← hold form]
      · simp [Errand.openAfter, Errand.nest, Nest.leave, heq, ← hold form]
    | openScope o rule other =>
      by_cases heq : form = other
      · subst heq
        have hnumber := Errand.numberOf_opened hlabels
        rw [← h.upcoming form] at hnumber
        simp [Errand.openAfter, Errand.nest, Nest.enter, hnumber, ← hold form]
      · simp [Errand.openAfter, Errand.nest, Nest.enter, heq, ← hold form]

/-- The scopes after a run are tied to the errands that it carried out. -/
theorem tracks_performAll {lines : Lines Int} {log : List Errand} {w : Walk}
    (hlabels : log.Pairwise fun a b => a.label ≠ b.label)
    (h : Walk.performAll d s { tree := .start lines } log = .ok w) : w.tree.Tracks log := by
  induction log using List.reverseRecOn generalizing w with
  | nil =>
    cases h
    exact tracks_start lines
  | append_singleton log e ih =>
    obtain ⟨before, hbefore, hafter⟩ := Walk.performAll_append_singleton h
    have htracks := ih (hlabels.sublist (List.sublist_append_left _ _)) hbefore
    exact tracks_perform htracks hlabels hafter

end ScopeTree

/-! ### From the root -/

namespace Walk

variable {d : Dialect} {s : Settings}

/-- Meeting a node of an unknown kind closes no scope. -/
theorem meetUnknown_ne_scope (w : Walk) (node : Document) (cause : ScopeError) :
    w.meetUnknown d s node ≠ .error (.scope cause) := by
  intro h
  unfold meetUnknown unknownKind at h
  cases hlines : node.lines? with
  | error fault =>
    rw [hlines] at h
    cases h
  | ok lines =>
    rw [hlines] at h
    simp only [bind, Except.bind, pure, Except.pure, Except.mapError] at h
    split at h
    · cases h
    · split at h
      · cases h
      · cases h

/-- Only closing a scope can fail for want of an open one. -/
theorem openScopes_of_scope_error {w : Walk} {e : Errand} {cause : ScopeError}
    (h : w.perform d s e.task = .error (.scope cause)) :
    ∃ o form, e = .closeScope o form ∧ w.tree.openScopes form = [] := by
  cases e with
  | visit o =>
    simp only [Errand.task, perform] at h
    cases hrule : d.ruleFor o.place.node with
    | none =>
      simp only [hrule] at h
      exact absurd h (meetUnknown_ne_scope w o.place.node cause)
    | some rule =>
      simp only [hrule] at h
      -- A visit fails with what the rule could not read, never with an error of the scopes.
      cases hread : rule.read s o.place with
      | error fault =>
        rw [hread] at h
        cases h
      | ok c =>
        rw [hread] at h
        cases h
  | openScope o rule form =>
    simp only [Errand.task, perform, openScope] at h
    cases hlines : o.place.node.lines? with
    | error fault =>
      rw [hlines] at h
      cases h
    | ok lines =>
      rw [hlines] at h
      cases form with
      | function => cases h
      | classBody => cases h
  | closeScope o form =>
    refine ⟨o, form, rfl, ?_⟩
    simp only [Errand.task, perform, closeScope] at h
    cases form with
    | function =>
      cases hopen : w.tree.openFunctions with
      | nil => exact hopen
      | cons i rest =>
        simp only [ScopeTree.pop, hopen] at h
        cases h
    | classBody =>
      cases hopen : w.tree.openClasses with
      | nil => exact hopen
      | cons i rest =>
        simp only [ScopeTree.closeClass, hopen] at h
        cases h

end Walk

namespace Dialect

variable {d : Dialect} {s : Settings} {root : Document}

/-- The errands of a tree fit, starting and ending outside of all scopes. -/
theorem leadsTo_script (d : Dialect) (s : Settings) (root : Document) :
    Errand.LeadsTo d (fun _ => []) (Errand.script d s [.visit (d.top root)]) fun _ => [] :=
  Errand.leadsTo_script ⟨⟨rfl, trivial⟩, rfl⟩

/-- No errand is in a journal twice. -/
theorem pairwise_label_errands (d : Dialect) (s : Settings) (root : Document) :
    (d.journal s root).errands.Pairwise fun a b => a.label ≠ b.label :=
  (pairwise_label_script d s root).sublist (errands_start_script d s root).sublist

/-- The errands of a journal fit. -/
theorem allFit_errands (d : Dialect) (s : Settings) (root : Document) :
    Errand.AllFit d (fun _ => []) (d.journal s root).errands := by
  obtain ⟨rest, hscript⟩ := errands_start_script d s root
  have hfit := (leadsTo_script d s root).1
  rw [← hscript] at hfit
  exact (Errand.allFit_append.mp hfit).1

/-- The scopes at the end of a traversal are tied to the errands of its journal. -/
theorem tracks_of_walk {w : Walk} (done : d.walk s root = .ok w) :
    w.tree.Tracks (d.journal s root).errands := by
  obtain ⟨-, lines, hperform⟩ := performAll_of_walk done
  exact ScopeTree.tracks_performAll (pairwise_label_errands d s root) hperform

/-- Each errand of a journal fits, and starts from scopes that are tied to the errands
before it. -/
theorem fits_and_tracks {earlier later : List Entry} {entry : Entry}
    (h : (d.journal s root).entries = earlier ++ entry :: later) :
    let log := earlier.map Entry.errand
    entry.errand.Fits d (Errand.nestAfter (fun _ => []) log) ∧ entry.before.tree.Tracks log := by
  have herrands : (d.journal s root).errands =
      earlier.map Entry.errand ++ entry.errand :: later.map Entry.errand := by
    rw [Journal.errands, h, List.map_append, List.map_cons]
  have hlabels := pairwise_label_errands d s root
  have hfit := allFit_errands d s root
  rw [herrands] at hlabels hfit
  obtain ⟨lines, hbefore⟩ := performAll_of_journal h
  exact ⟨hfit.fits, ScopeTree.tracks_performAll
    (hlabels.sublist (List.sublist_append_left _ _)) hbefore⟩

/-- When a scope is closed, the open scopes are those that were open when it was opened, and
the scope itself in front of them. -/
theorem openScopes_at_closing {earlier later : List Entry} {entry : Entry} {o : Occurrence}
    {form : ScopeForm} (h : (d.journal s root).entries = earlier ++ entry :: later)
    (hclosing : entry.errand = .closeScope o form) :
    ∃ opening ∈ earlier, ∃ rule, opening.errand = .openScope o rule form ∧
      entry.before.tree.openScopes form =
        opening.before.tree.upcoming form :: opening.before.tree.openScopes form ∧
      ∀ other, other ≠ form →
        entry.before.tree.openScopes other = opening.before.tree.openScopes other := by
  obtain ⟨hfit, htracks⟩ := fits_and_tracks h
  rw [hclosing] at hfit
  replace hfit : Errand.nestAfter _ _ = (o.nest d).enter form o := hfit
  have hmem : o ∈ Errand.opened form (earlier.map Entry.errand) :=
    Errand.mem_opened_of_mem_nestAfter (by rw [hfit]; simp [Nest.enter])
  obtain ⟨rule, hmem⟩ := Errand.mem_opened.mp hmem
  obtain ⟨opening, hopening, herrand⟩ := List.mem_map.mp hmem
  obtain ⟨before, between, rfl⟩ := List.append_of_mem hopening
  -- The walk at the opening is tied to the errands before it, in the nest of `o`.
  rw [List.append_assoc, List.cons_append] at h
  obtain ⟨hfit', htracks'⟩ := fits_and_tracks h
  rw [herrand] at hfit'
  replace hfit' : Errand.nestAfter _ _ = o.nest d := hfit'
  have hopenScopes := htracks.openScopes
  have hopenScopes' := htracks'.openScopes
  rw [hfit] at hopenScopes
  rw [hfit'] at hopenScopes'
  rw [List.map_append, List.map_cons, herrand] at hopenScopes
  have hlabels := pairwise_label_errands d s root
  rw [Journal.errands, h, ← List.cons_append, ← List.append_assoc, List.map_append,
    List.map_append, List.map_cons, herrand] at hlabels
  -- Scopes keep their numbers, and the one of `o` got the next number at the opening.
  have hkept : ∀ other, (o.nest d other).map (Errand.numberOf other
      (before.map Entry.errand ++ .openScope o rule form :: between.map Entry.errand)) =
      opening.before.tree.openScopes other := by
    intro other
    rw [hopenScopes' other]
    refine List.map_congr_left fun u hu => Errand.numberOf_append ?_
    exact Errand.mem_opened_of_mem_nestAfter (by rw [hfit']; exact hu)
  have hnumber := Errand.numberOf_opened (hlabels.sublist (List.sublist_append_left _ _))
  refine ⟨opening, hopening, rule, herrand, ?_, fun other hother => ?_⟩
  · rw [hopenScopes form, Nest.enter, Function.update_self, List.map_cons, hkept form,
      hnumber, htracks'.upcoming form]
  · rw [hopenScopes other, Nest.enter, Function.update_of_ne hother, hkept other]

end Dialect

end CodeMetrics
