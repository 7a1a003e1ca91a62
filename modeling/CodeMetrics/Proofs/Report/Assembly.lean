import CodeMetrics.Proofs.Report.Halstead
import CodeMetrics.Proofs.Scope.Representation
import CodeMetrics.Proofs.Traversal.Lockstep
import Mathlib.Data.List.Forall2
import Mathlib.Data.List.Sort

/-!
# `CodeMetrics.Proofs.Report.Assembly`: how a report is put together

A class lists its functions by index, and the report on the class lists their records. The records
go through two stages: the exact ones are averaged, and the rounded ones are shown. This module
says which records stand where, and which numbers come from which stage.

`Report.AssembledFrom` describes a report by its parts. Functions are looked up in a table with
their own indices (`Report.byIndex`), and every look-up has to succeed. Numbers are described one
at a time (`Metrics.numbers`): what is shown is rounded once, and an average is an average of exact
numbers. `Report.build_eq_ok_iff` says that `Report.build` gives the reports of this description
and no others.

The look-ups succeed since the indices in a tree are in order, which is so after any sequence of
operations and after any traversal.
-/

set_option autoImplicit false

namespace CodeMetrics

/-! ### Lists built in two stages -/

/-- Items related to those of a first list are built in two stages, where the second one sees
the item of the first list again. -/
theorem forall₂_iff_zipWith {α β γ : Type} {P : α → β → Prop} {Q : α → γ → Prop} {g : β → α → γ}
    {as : List α} {cs : List γ} (h : ∀ a ∈ as, ∀ c, Q a c ↔ ∃ b, P a b ∧ c = g b a) :
    List.Forall₂ Q as cs ↔ ∃ bs, List.Forall₂ P as bs ∧ cs = List.zipWith g bs as := by
  induction as generalizing cs with
  | nil => simp
  | cons a as ih =>
    rw [List.forall_mem_cons] at h
    simp only [List.forall₂_cons_left_iff, ih h.2, h.1]
    constructor
    · rintro ⟨_, _, ⟨b, hb, rfl⟩, ⟨bs, hbs, rfl⟩, rfl⟩
      exact ⟨b :: bs, ⟨b, bs, hb, hbs, rfl⟩, rfl⟩
    · rintro ⟨_, ⟨b, bs, hb, hbs, rfl⟩, rfl⟩
      exact ⟨g b a, List.zipWith g bs as, ⟨b, hb, rfl⟩, ⟨bs, hbs, rfl⟩, rfl⟩

/-! ### Each number by itself -/

section

variable {f : Number → Except ArithmeticFault Number}

theorem TokenSummary.mapM_eq_ok_iff {t t' : TokenSummary} :
    t.mapM f = .ok t' ↔ f t.total = .ok t'.total ∧ f t.distinct = .ok t'.distinct ∧
      t.identifiers = t'.identifiers := by
  cases t'
  simp [TokenSummary.mapM, bind_eq_ok_iff, pure, Except.pure]

theorem Halstead.mapM_eq_ok_iff {h h' : Halstead} :
    h.mapM f = .ok h' ↔
      h.operators.mapM f = .ok h'.operators ∧ h.operands.mapM f = .ok h'.operands ∧
        f h.length = .ok h'.length ∧ f h.vocabulary = .ok h'.vocabulary ∧
        f h.difficulty = .ok h'.difficulty ∧ f h.volume = .ok h'.volume ∧
        f h.effort = .ok h'.effort ∧ f h.bugs = .ok h'.bugs ∧ f h.time = .ok h'.time := by
  cases h'
  simp [Halstead.mapM, bind_eq_ok_iff, pure, Except.pure]

namespace Metrics

/-- Every number of some measures. -/
def numbers : List (Metrics → Number) :=
  [(·.physical), (·.logical), (·.cyclomatic), (·.density), (·.paramCount),
    (·.halstead.operators.total), (·.halstead.operators.distinct),
    (·.halstead.operands.total), (·.halstead.operands.distinct),
    (·.halstead.length), (·.halstead.vocabulary), (·.halstead.difficulty),
    (·.halstead.volume), (·.halstead.effort), (·.halstead.bugs), (·.halstead.time)]

/-- The operators and operands that are listed with some measures. -/
def identifiers (m : Metrics) : List Document × List Document :=
  (m.halstead.operators.identifiers, m.halstead.operands.identifiers)

/-- A function is applied to measures by applying it to each number. -/
theorem mapM_eq_ok_iff {m m' : Metrics} :
    m.mapM f = .ok m' ↔
      (∀ number ∈ numbers, f (number m) = .ok (number m')) ∧ m.identifiers = m'.identifiers := by
  simp only [mapM, bind_eq_ok_iff, Halstead.mapM_eq_ok_iff, TokenSummary.mapM_eq_ok_iff, numbers,
    identifiers, List.forall_mem_cons, Prod.mk.injEq]
  constructor
  · rintro ⟨_, h₁, _, h₂, _, h₃, _, h₄, _, h₅, _, h₆, ⟨⟩⟩
    simp [h₁, h₂, h₃, h₄, h₅, h₆]
  · intro h
    refine ⟨_, h.1.1, _, h.1.2.1, _, h.1.2.2.1, _, h.1.2.2.2.1, _, h.1.2.2.2.2.1, m'.halstead, ?_,
      rfl⟩
    simp [h]

/-- Each number of the first measures, rounded to three places, is that number of the second. -/
def RoundsTo (exact shown : Metrics) : Prop :=
  (∀ number ∈ numbers, Measure.round (number exact) 3 = .ok (number shown)) ∧
    exact.identifiers = shown.identifiers

theorem rounded_eq_ok_iff {exact shown : Metrics} :
    exact.rounded = .ok shown ↔ exact.RoundsTo shown :=
  mapM_eq_ok_iff

/-- The mean of one number over some measures, zero if there are none. -/
def meanOf (ms : List Metrics) (number : Metrics → Number) : Except ArithmeticFault Number :=
  if ms.isEmpty then .ok 0 else average ms number

/-- Each number is the mean of that number over some measures. No token is listed. -/
def Averages (m : Metrics) (ms : List Metrics) : Prop :=
  (∀ number ∈ numbers, meanOf ms number = .ok (number m)) ∧ m.identifiers = ([], [])

theorem mean_eq_ok_iff {ms : List Metrics} {m : Metrics} : mean ms = .ok m ↔ m.Averages ms := by
  obtain ⟨_, _, _, _, ⟨⟨_, _, _⟩, ⟨_, _, _⟩, _, _, _, _, _, _, _⟩, _⟩ := m
  unfold mean Averages meanOf
  cases ms.isEmpty with
  | true =>
    simp only [if_true, numbers, identifiers, List.forall_mem_cons, Except.ok.injEq]
    constructor
    · rintro ⟨⟩
      simp
    · rintro ⟨⟨rfl, rfl, rfl, rfl, rfl, rfl, rfl, rfl, rfl, rfl, rfl, rfl, rfl, rfl, rfl, rfl, -⟩,
        ⟨⟩⟩
      rfl
  | false =>
    simp only [Bool.false_eq_true, if_false, bind_eq_ok_iff, numbers, identifiers,
      List.forall_mem_cons]
    constructor
    · rintro ⟨_, h₁, _, h₂, _, h₃, _, h₄, _, h₅, _, h₆, _, h₇, _, h₈, _, h₉, _, h₁₀, _, h₁₁, _, h₁₂,
        _, h₁₃, _, h₁₄, _, h₁₅, _, h₁₆, ⟨⟩⟩
      -- `numbers` lists the parameters before the numbers of Halstead, the calculation averages
      -- them last.
      exact ⟨⟨h₁, h₂, h₃, h₄, h₁₆, h₅, h₆, h₇, h₈, h₉, h₁₀, h₁₁, h₁₂, h₁₃, h₁₄, h₁₅,
        List.forall_mem_nil _⟩, rfl⟩
    · rintro ⟨⟨h₁, h₂, h₃, h₄, h₁₆, h₅, h₆, h₇, h₈, h₉, h₁₀, h₁₁, h₁₂, h₁₃, h₁₄, h₁₅, -⟩, ⟨⟩⟩
      exact ⟨_, h₁, _, h₂, _, h₃, _, h₄, _, h₅, _, h₆, _, h₇, _, h₈, _, h₉, _, h₁₀, _, h₁₁, _, h₁₂,
        _, h₁₃, _, h₁₄, _, h₁₅, _, h₁₆, rfl⟩

end Metrics

end

/-! ### The records of functions -/

namespace MethodReport

/-- The record describes a function, with exact numbers. -/
structure Measures (m : MethodReport) (f : Scope Number Document) : Prop where
  name : m.name = f.name
  paramNames : m.paramNames = f.paramNames
  lines : m.lines = f.lines
  metrics : Metrics.ofScope f = .ok m.metrics

theorem ofScope_eq_ok_iff {f : Scope Number Document} {m : MethodReport} :
    ofScope f = .ok m ↔ m.Measures f := by
  constructor
  · intro h
    obtain ⟨metrics, hmetrics, h⟩ := exists_of_bind_eq_ok h
    cases h
    exact ⟨rfl, rfl, rfl, hmetrics⟩
  · intro h
    obtain ⟨name, paramNames, lines, metrics⟩ := m
    obtain ⟨rfl, rfl, rfl, hmetrics⟩ := h
    exact bind_eq_ok_iff.mpr ⟨metrics, hmetrics, rfl⟩

/-- The second record is the first one with every number rounded. -/
structure RoundsTo (exact shown : MethodReport) : Prop where
  name : exact.name = shown.name
  paramNames : exact.paramNames = shown.paramNames
  lines : exact.lines = shown.lines
  metrics : exact.metrics.RoundsTo shown.metrics

theorem rounded_eq_ok_iff {exact shown : MethodReport} :
    exact.rounded = .ok shown ↔ exact.RoundsTo shown := by
  constructor
  · intro h
    obtain ⟨metrics, hmetrics, h⟩ := exists_of_bind_eq_ok h
    cases h
    exact ⟨rfl, rfl, rfl, Metrics.rounded_eq_ok_iff.mp hmetrics⟩
  · intro h
    obtain ⟨name, paramNames, lines, metrics⟩ := shown
    obtain ⟨rfl, rfl, rfl, hmetrics⟩ := h
    exact bind_eq_ok_iff.mpr ⟨metrics, Metrics.rounded_eq_ok_iff.mpr hmetrics, rfl⟩

end MethodReport

/-! ### Looking up the functions of a class -/

/-- The indices of the functions count them. -/
theorem ScopeTree.FunctionsInOrder.map_index {κ τ : Type} {t : ScopeTree κ τ}
    (h : t.FunctionsInOrder) :
    t.functions.map Scope.index = List.range' 1 t.functions.length := by
  apply List.ext_getElem?
  intro k
  rw [List.getElem?_map]
  cases hk : t.functions[k]? with
  | none =>
    rw [List.getElem?_eq_none_iff] at hk
    rw [Option.map_none, List.getElem?_eq_none (by simpa using hk)]
  | some f =>
    have hindex : f.index = k + 1 := h.scopes_index (k + 1) f hk
    have hlt : k < t.functions.length := (List.getElem?_eq_some_iff.mp hk).1
    rw [Option.map_some, hindex, List.getElem?_range' hlt, Nat.one_mul, Nat.add_comm]

/-- A table whose keys count its entries. -/
theorem lookup_zip_range' {α : Type} (l : List α) {first n : Nat} (h : l.length ≤ n) (i : Nat) :
    ((List.range' first n).zip l).lookup i = if i < first then none else l[i - first]? := by
  induction l generalizing first n with
  | nil => simp
  | cons a l ih =>
    obtain ⟨n, rfl⟩ : ∃ m, n = m + 1 := ⟨n - 1, by simp at h; omega⟩
    rw [List.range'_succ, List.zip_cons_cons, List.lookup_cons, ih (Nat.le_of_succ_le_succ h)]
    rcases Nat.lt_trichotomy i first with hlt | rfl | hgt
    · have hne : (i == first) = false := beq_false_of_ne (Nat.ne_of_lt hlt)
      rw [hne, if_pos hlt, if_pos (Nat.lt_succ_of_lt hlt)]
    · rw [beq_self_eq_true, if_neg (Nat.lt_irrefl i), Nat.sub_self]
      rfl
    · have hne : (i == first) = false := beq_false_of_ne (Nat.ne_of_gt hgt)
      have hsub : i - first = i - (first + 1) + 1 := by omega
      rw [hne, if_neg (by omega), if_neg (by omega), hsub, List.getElem?_cons_succ]

/-- Where a function has a value for each item, nothing is left out. -/
theorem map_some_filterMap {α β : Type} {f : α → Option β} {l : List α}
    (h : ∀ a ∈ l, ∃ b, f a = some b) : (l.filterMap f).map some = l.map f := by
  induction l with
  | nil => rfl
  | cons a l ih =>
    rw [List.forall_mem_cons] at h
    obtain ⟨⟨b, hb⟩, hrest⟩ := h
    rw [List.filterMap_cons_some hb, List.map_cons, List.map_cons, ih hrest, hb]

namespace Report

/-- Records of the functions of a tree, each under the index of its function. -/
def byIndex (t : ScopeTree Number Document) (records : List MethodReport) :
    List (Nat × MethodReport) :=
  (t.functions.map Scope.index).zip records

section

variable {t : ScopeTree Number Document} {c : ClassScope Number Document}
  {records : List MethodReport}

theorem lookup_byIndex (h : t.FunctionsInOrder) (hlength : records.length = t.functions.length)
    (i : Nat) : (byIndex t records).lookup i = if i = 0 then none else records[i - 1]? := by
  rw [byIndex, h.map_index, lookup_zip_range' records (Nat.le_of_eq hlength)]
  simp only [Nat.lt_one_iff]

/-- A class lists no index without a record. -/
theorem exists_record (h : t.Represented) (hlength : records.length = t.functions.length)
    (hc : c ∈ t.classes) {i : Nat} (hi : i ∈ c.methods) :
    0 < i ∧ ∃ m, records[i - 1]? = some m := by
  obtain ⟨hpos, hlt⟩ := h.methods_functions c hc i hi
  have hi : i - 1 < records.length := by
    simp only [ScopeTree.scopes, List.length_cons] at hlt
    omega
  exact ⟨hpos, records[i - 1], List.getElem?_eq_getElem hi⟩

theorem exists_lookup (h : t.Represented) (hlength : records.length = t.functions.length)
    (hc : c ∈ t.classes) {i : Nat} (hi : i ∈ c.methods) :
    ∃ m, (byIndex t records).lookup i = some m := by
  obtain ⟨hpos, m, hm⟩ := exists_record h hlength hc hi
  exact ⟨m, by rw [lookup_byIndex h.toFunctionsInOrder hlength, if_neg (Nat.ne_of_gt hpos), hm]⟩

/-- The records selected for a class are those that the table has under its indices. -/
theorem eq_select_iff (h : t.Represented) (hlength : records.length = t.functions.length)
    (hc : c ∈ t.classes) {own : List MethodReport} :
    own.map some = c.methods.map (fun i => (byIndex t records).lookup i) ↔
      own = select records c.methods := by
  have hselect : select records c.methods =
      c.methods.filterMap (fun i => (byIndex t records).lookup i) := by
    simp only [select, lookup_byIndex h.toFunctionsInOrder hlength]
  rw [hselect, ← map_some_filterMap fun i hi => exists_lookup h hlength hc hi]
  exact (List.map_injective_iff.mpr (Option.some_injective _)).eq_iff

/-- They are also those at the positions that the indices name. -/
theorem map_some_select (h : t.Represented) (hlength : records.length = t.functions.length)
    (hc : c ∈ t.classes) :
    (select records c.methods).map some = c.methods.map (fun i => records[i - 1]?) := by
  rw [(eq_select_iff h hlength hc).mpr rfl]
  apply List.map_congr_left
  intro i hi
  obtain ⟨hpos, -⟩ := exists_record h hlength hc hi
  rw [lookup_byIndex h.toFunctionsInOrder hlength, if_neg (Nat.ne_of_gt hpos)]

/-- The records of a class stand in the order of the indices, so they are a part of the list. -/
theorem select_sublist (h : t.Represented) (hlength : records.length = t.functions.length)
    (hc : c ∈ t.classes) : (select records c.methods).Sublist records := by
  have hincreasing := h.methods_increasing c hc
  have hsubset : c.methods ⊆ List.range' 1 records.length := by
    intro i hi
    obtain ⟨hpos, hlt⟩ := h.methods_functions c hc i hi
    simp only [ScopeTree.scopes, List.length_cons] at hlt
    rw [List.mem_range'_1]
    omega
  have hindices : c.methods.Sublist (List.range' 1 records.length) :=
    List.sublist_of_subperm_of_pairwise (List.subperm_of_subset hincreasing.nodup hsubset)
      hincreasing List.pairwise_lt_range'
  -- Indices count from one and positions from zero.
  have hall : (List.range' 1 records.length).map (fun i => records[i - 1]?) = records.map some := by
    apply List.ext_getElem (by simp)
    intro k _ _
    simp
  have hselected := hindices.map fun i => records[i - 1]?
  rw [hall, ← map_some_select h hlength hc] at hselected
  simpa [List.filterMap_map] using hselected.filterMap id

end

end Report

/-! ### Measures of a module or a class as a whole -/

/-- What a report shows of a module or a class as a whole. -/
structure Summary where
  aggregate : Metrics
  aggregateAverage : Metrics
  methodAverage : Metrics
  maintainability : Number

/-- The whole of a module. -/
def Report.summary (r : Report) : Summary :=
  { r with }

/-- The whole of a class. -/
def ClassReport.summary (r : ClassReport) : Summary :=
  { r with }

/-- A summary of a scope with the measures `own`, in which functions have the measures `methods`.
Both are exact, and whatever is shown is rounded once and last. -/
structure Summary.Shows (shown : Summary) (s : Settings) (own : Metrics) (methods : List Metrics) :
    Prop where
  aggregate : own.RoundsTo shown.aggregate
  aggregateAverage : ∃ average, own.divide 1 = .ok average ∧ average.RoundsTo shown.aggregateAverage
  methodAverage : ∃ mean : Metrics, mean.Averages methods ∧ mean.RoundsTo shown.methodAverage
  maintainability : own.maintainability s methods.length = .ok shown.maintainability

/-- The report on a class, whose functions have the exact records in the first table and the
rounded ones in the second. -/
structure ClassReport.AssembledFrom (e : ClassReport) (s : Settings)
    (c : ClassScope Number Document) (exact shown : List (Nat × MethodReport)) : Prop where
  name : e.name = c.name
  superName : e.superName = c.superName
  lines : e.lines = c.lines
  methods : e.methods.map some = c.methods.map (fun i => shown.lookup i)
  summary : ∃ (own : Metrics) (methods : List MethodReport),
    methods.map some = c.methods.map (fun i => exact.lookup i) ∧
      Metrics.ofScope c.toScope = .ok own ∧ e.summary.Shows s own (methods.map (·.metrics))

/-- The report on a tree whose functions have the given exact records. -/
structure Report.AssembledFrom (r : Report) (s : Settings) (t : ScopeTree Number Document)
    (dependencies : List (Dependency Document)) (errors : List Diagnostic)
    (exact : List MethodReport) : Prop where
  measured : List.Forall₂ (fun f m => m.Measures f) t.functions exact
  methods : List.Forall₂ MethodReport.RoundsTo exact r.methods
  summary : ∃ own, Metrics.ofScope t.module = .ok own ∧
    r.summary.Shows s own (exact.map (·.metrics))
  classes : List.Forall₂
    (fun c e => e.AssembledFrom s c (byIndex t exact) (byIndex t r.methods)) t.classes r.classes
  lines : r.lines = t.module.lines
  dependencies : r.dependencies = dependencies
  errors : r.errors = errors
  settings : r.settings = s.echo

theorem Summary.shows_iff {shown : Summary} {s : Settings} {own : Metrics}
    {methods : List MethodReport} :
    shown.Shows s own (methods.map (·.metrics)) ↔
      own.rounded = .ok shown.aggregate ∧
      (∃ average, own.divide 1 = .ok average ∧ average.rounded = .ok shown.aggregateAverage) ∧
      (∃ mean, Metrics.mean (methods.map (·.metrics)) = .ok mean ∧
        mean.rounded = .ok shown.methodAverage) ∧
      own.maintainability s methods.length = .ok shown.maintainability := by
  simp only [Metrics.rounded_eq_ok_iff, Metrics.mean_eq_ok_iff]
  constructor
  · rintro ⟨h₁, h₂, h₃, h₄⟩
    exact ⟨h₁, h₂, h₃, by rwa [List.length_map] at h₄⟩
  · rintro ⟨h₁, h₂, h₃, h₄⟩
    exact ⟨h₁, h₂, h₃, by rwa [List.length_map]⟩

/-- The report on a class is first made with exact records. -/
theorem ClassReport.ofScope_eq_ok_iff {s : Settings} {c : ClassScope Number Document}
    {methods : List MethodReport} {e : ClassReport} :
    ofScope s c methods = .ok e ↔
      e.name = c.name ∧ e.superName = c.superName ∧ e.lines = c.lines ∧ e.methods = methods ∧
        ∃ own, Metrics.ofScope c.toScope = .ok own ∧
          e.summary.Shows s own (methods.map (·.metrics)) := by
  simp only [ofScope, bind_eq_ok_iff, Summary.shows_iff]
  constructor
  · rintro ⟨own, hown, _, hmaintainability, average, haverage, mean, hmean, _, haggregate, _,
      haggregateAverage, _, hmethodAverage, ⟨⟩⟩
    exact ⟨rfl, rfl, rfl, rfl, own, hown, haggregate, ⟨average, haverage, haggregateAverage⟩,
      ⟨mean, hmean, hmethodAverage⟩, hmaintainability⟩
  · rintro ⟨hname, hsuper, hlines, hmethods, own, hown, haggregate,
      ⟨average, haverage, haggregateAverage⟩, ⟨mean, hmean, hmethodAverage⟩, hmaintainability⟩
    refine ⟨own, hown, _, hmaintainability, average, haverage, mean, hmean, _, haggregate, _,
      haggregateAverage, _, hmethodAverage, ?_⟩
    rw [← hname, ← hsuper, ← hlines, ← hmethods]
    rfl

/-- In the report on a module, the rounded records take the place of the exact ones. -/
theorem ClassReport.assembledFrom_iff {s : Settings} {t : ScopeTree Number Document}
    {c : ClassScope Number Document} {exact shown : List MethodReport} {e : ClassReport}
    (h : t.Represented) (hc : c ∈ t.classes) (hexact : exact.length = t.functions.length)
    (hshown : shown.length = t.functions.length) :
    e.AssembledFrom s c (Report.byIndex t exact) (Report.byIndex t shown) ↔
      ∃ made, ofScope s c (Report.select exact c.methods) = .ok made ∧
        e = { made with methods := Report.select shown c.methods } := by
  simp only [ofScope_eq_ok_iff]
  constructor
  · intro he
    obtain ⟨own, methods, hmethods, hown, hsummary⟩ := he.summary
    -- The exact records are those the indices select, so nothing is left to choose.
    rw [Report.eq_select_iff h hexact hc] at hmethods
    subst hmethods
    have hlisted := (Report.eq_select_iff h hshown hc).mp he.methods
    refine ⟨{ e with methods := Report.select exact c.methods },
      ⟨he.name, he.superName, he.lines, rfl, own, hown, hsummary⟩, ?_⟩
    rw [← hlisted]
  · rintro ⟨made, ⟨hname, hsuper, hlines, -, own, hown, hsummary⟩, rfl⟩
    exact
      { name := hname
        superName := hsuper
        lines := hlines
        methods := (Report.eq_select_iff h hshown hc).mpr rfl
        summary := ⟨own, _, (Report.eq_select_iff h hexact hc).mpr rfl, hown, hsummary⟩ }

theorem ClassReport.forall₂_assembledFrom_iff {s : Settings} {t : ScopeTree Number Document}
    {exact shown : List MethodReport} {classes : List ClassReport} (h : t.Represented)
    (hexact : exact.length = t.functions.length) (hshown : shown.length = t.functions.length) :
    List.Forall₂ (fun c e => e.AssembledFrom s c (Report.byIndex t exact) (Report.byIndex t shown))
        t.classes classes ↔
      ∃ made, t.classes.mapM (fun c => ofScope s c (Report.select exact c.methods)) = .ok made ∧
        classes = List.zipWith
          (fun (e : ClassReport) c => { e with methods := Report.select shown c.methods })
          made t.classes := by
  simp only [mapM_eq_ok_iff]
  exact forall₂_iff_zipWith fun c hc e => assembledFrom_iff h hc hexact hshown

namespace Report

section

variable {s : Settings} {t : ScopeTree Number Document}
  {dependencies : List (Dependency Document)} {errors : List Diagnostic} {r : Report}
  {exact : List MethodReport}

theorem AssembledFrom.length_exact (h : r.AssembledFrom s t dependencies errors exact) :
    exact.length = t.functions.length :=
  h.measured.length_eq.symm

theorem AssembledFrom.length_methods (h : r.AssembledFrom s t dependencies errors exact) :
    r.methods.length = t.functions.length :=
  h.methods.length_eq.symm.trans h.length_exact

/-- Functions keep their names. -/
theorem AssembledFrom.map_name (h : r.AssembledFrom s t dependencies errors exact) :
    r.methods.map MethodReport.name = t.functions.map Scope.name := by
  have hmeasured : List.Forall₂ Eq (t.functions.map Scope.name) (exact.map MethodReport.name) := by
    rw [List.forall₂_map_left_iff, List.forall₂_map_right_iff]
    exact h.measured.imp fun f m hm => hm.name.symm
  have hrounded : List.Forall₂ Eq (exact.map MethodReport.name)
      (r.methods.map MethodReport.name) := by
    rw [List.forall₂_map_left_iff, List.forall₂_map_right_iff]
    exact h.methods.imp fun m m' hm => hm.name
  rw [List.forall₂_eq_eq_eq] at hmeasured hrounded
  exact (hmeasured.trans hrounded).symm

/-- Putting a report together gives the report of this description and no other one. It has no
result only where a calculation has none. -/
theorem build_eq_ok_iff (h : t.Represented) :
    build s t dependencies errors = .ok r ↔
      ∃ exact, r.AssembledFrom s t dependencies errors exact := by
  simp only [build, bind_eq_ok_iff]
  -- Both directions take the steps of `build` in order. What it returns is the rounded form of what
  -- is described.
  constructor
  · rintro ⟨own, hown, exact, hexact, _, hmaintainability, average, haverage, mean, hmean, made,
      hmade, _, haggregate, _, haggregateAverage, _, hmethodAverage, shown, hshown, ⟨⟩⟩
    simp only [mapM_eq_ok_iff (f := MethodReport.ofScope), MethodReport.ofScope_eq_ok_iff] at hexact
    simp only [mapM_eq_ok_iff (f := MethodReport.rounded), MethodReport.rounded_eq_ok_iff] at hshown
    have hlength := hexact.length_eq.symm
    exact ⟨exact,
      { measured := hexact
        methods := hshown
        summary := ⟨own, hown, Summary.shows_iff.mpr ⟨haggregate,
          ⟨average, haverage, haggregateAverage⟩, ⟨mean, hmean, hmethodAverage⟩, hmaintainability⟩⟩
        classes := (ClassReport.forall₂_assembledFrom_iff h hlength
          (hshown.length_eq.symm.trans hlength)).mpr ⟨made, hmade, rfl⟩
        lines := rfl
        dependencies := rfl
        errors := rfl
        settings := rfl }⟩
  · rintro ⟨exact, hr⟩
    obtain ⟨own, hown, hsummary⟩ := hr.summary
    obtain ⟨haggregate, ⟨average, haverage, haggregateAverage⟩, ⟨mean, hmean, hmethodAverage⟩,
      hmaintainability⟩ := Summary.shows_iff.mp hsummary
    obtain ⟨made, hmade, hlisted⟩ := (ClassReport.forall₂_assembledFrom_iff h hr.length_exact
      hr.length_methods).mp hr.classes
    have hexact : t.functions.mapM MethodReport.ofScope = .ok exact := by
      simpa only [mapM_eq_ok_iff, MethodReport.ofScope_eq_ok_iff] using hr.measured
    have hshown : exact.mapM MethodReport.rounded = .ok r.methods := by
      simpa only [mapM_eq_ok_iff, MethodReport.rounded_eq_ok_iff] using hr.methods
    refine ⟨own, hown, exact, hexact, _, hmaintainability, average, haverage, mean, hmean, made,
      hmade, _, haggregate, _, haggregateAverage, _, hmethodAverage, r.methods, hshown, ?_⟩
    rw [← hlisted, ← hr.lines, ← hr.dependencies, ← hr.errors, ← hr.settings]
    rfl

/-- The records listed with a class are those of the module at the positions that the class
names. -/
theorem AssembledFrom.listed (hr : r.AssembledFrom s t dependencies errors exact)
    (h : t.Represented) {k : Nat} {c : ClassScope Number Document} {e : ClassReport}
    (hc : t.classes[k]? = some c) (he : r.classes[k]? = some e) :
    e.methods.map some = c.methods.map (fun i => r.methods[i - 1]?) ∧
      e.methods.Sublist r.methods := by
  have hmem := List.mem_of_getElem? hc
  have hclass : e.AssembledFrom s c (byIndex t exact) (byIndex t r.methods) := by
    obtain ⟨hk, rfl⟩ := List.getElem?_eq_some_iff.mp hc
    obtain ⟨hk', rfl⟩ := List.getElem?_eq_some_iff.mp he
    exact (List.forall₂_iff_get.mp hr.classes).2 k hk hk'
  rw [(eq_select_iff h hr.length_methods hmem).mp hclass.methods]
  exact ⟨map_some_select h hr.length_methods hmem, select_sublist h hr.length_methods hmem⟩

end

/-- What is known of reports on a tree. Every function that a class names is found, the report is
the one described by `AssembledFrom`, the records of a class are a part of all records, and no two
classes name a function together. -/
structure Assembly (s : Settings) (t : ScopeTree Number Document)
    (dependencies : List (Dependency Document)) (errors : List Diagnostic) : Prop where
  found : ∀ records : List MethodReport, records.length = t.functions.length →
    ∀ c ∈ t.classes, ∀ i ∈ c.methods, ∃ m, (byIndex t records).lookup i = some m
  built : ∀ r, build s t dependencies errors = .ok r ↔
    ∃ exact, r.AssembledFrom s t dependencies errors exact
  listed : ∀ r, build s t dependencies errors = .ok r →
    ∀ (k : Nat) (c : ClassScope Number Document) (e : ClassReport),
      t.classes[k]? = some c → r.classes[k]? = some e →
        e.methods.map some = c.methods.map (fun i => r.methods[i - 1]?) ∧
          e.methods.Sublist r.methods
  apart : ∀ (j k : Nat) (c e : ClassScope Number Document), j ≠ k → t.classes[j]? = some c →
    t.classes[k]? = some e → c.methods.Disjoint e.methods

theorem assembly_of_represented {t : ScopeTree Number Document} (h : t.Represented) (s : Settings)
    (dependencies : List (Dependency Document)) (errors : List Diagnostic) :
    Assembly s t dependencies errors where
  found records hlength c hc i hi := exists_lookup h hlength hc hi
  built r := build_eq_ok_iff h
  listed r hr k c e hc he := by
    obtain ⟨exact, hr⟩ := (build_eq_ok_iff h).mp hr
    exact hr.listed h hc he
  apart := h.methods_apart

end Report

/-! ### Trees that can come about -/

/-- The indices stay in order when counts and tokens are replaced. -/
theorem ScopeTree.Represented.map {κ τ μ σ : Type} {t : ScopeTree κ τ} (h : t.Represented)
    (f : κ → μ) (g : τ → σ) : (t.map f g).Represented := by
  have hscopes : (t.map f g).scopes = t.scopes.map (·.map f g) := rfl
  have hlength : (t.map f g).scopes.length = t.scopes.length := by rw [hscopes, List.length_map]
  -- Every scope of the new tree is the image of one of the old, which has the index, the parent and
  -- the methods the clauses ask for.
  have hscope : ∀ {i : Nat} {a : Scope μ σ}, (t.map f g).scopes[i]? = some a →
      ∃ b, t.scopes[i]? = some b ∧ b.map f g = a := by
    intro i a ha
    rwa [hscopes, List.getElem?_map, Option.map_eq_some_iff] at ha
  have hclass : ∀ {i : Nat} {a : ClassScope μ σ}, (t.map f g).classes[i]? = some a →
      ∃ b, t.classes[i]? = some b ∧ b.map f g = a := by
    intro i a ha
    rwa [ScopeTree.map, List.getElem?_map, Option.map_eq_some_iff] at ha
  exact
    { stack_first := h.stack_first
      stack_increasing := h.stack_increasing
      stack_valid := fun i hi => hlength ▸ h.stack_valid i hi
      stack_parents := by
        refine h.stack_parents.imp fun below entry hentry => ?_
        obtain ⟨b, hb, hparent⟩ := hentry
        exact ⟨b.map f g, by rw [hscopes, List.getElem?_map, hb]; rfl, hparent⟩
      scopes_index := by
        intro i a ha
        obtain ⟨b, hb, rfl⟩ := hscope ha
        exact h.scopes_index i b hb
      functions_parent := by
        intro a ha
        obtain ⟨b, hb, rfl⟩ := List.mem_map.mp ha
        rw [hlength]
        exact h.functions_parent b hb
      params_counted := by
        intro a ha
        obtain ⟨b, hb, rfl⟩ := List.mem_map.mp ha
        exact h.params_counted b hb
      classStack_increasing := h.classStack_increasing
      classStack_valid := by
        intro i hi
        rw [ScopeTree.map, List.length_map]
        exact h.classStack_valid i hi
      classes_index := by
        intro i a ha
        obtain ⟨b, hb, rfl⟩ := hclass ha
        exact h.classes_index i b hb
      classes_parent := by
        intro a ha
        obtain ⟨b, hb, rfl⟩ := List.mem_map.mp ha
        rw [hlength]
        exact h.classes_parent b hb
      methods_increasing := by
        intro a ha
        obtain ⟨b, hb, rfl⟩ := List.mem_map.mp ha
        exact h.methods_increasing b hb
      methods_functions := by
        intro a ha
        obtain ⟨b, hb, rfl⟩ := List.mem_map.mp ha
        rw [hlength]
        exact h.methods_functions b hb
      methods_apart := by
        intro i j a c hij ha hc
        obtain ⟨b, hb, rfl⟩ := hclass ha
        obtain ⟨e, he, rfl⟩ := hclass hc
        exact h.methods_apart i j b e hij hb he }

namespace Walk

variable {d : Dialect} {s : Settings} {w after : Walk}

/-- An errand keeps the indices in order. -/
theorem represented_perform {e : Errand} (h : w.tree.Represented)
    (done : w.perform d s e.task = .ok after) : after.tree.Represented := by
  rcases perform_cases done with ⟨o, rfl, htree⟩ | ⟨o, rule, name, lines, rfl, htree⟩ |
    ⟨o, rule, name, superName, lines, rfl, htree⟩ | ⟨o, rfl, htree⟩ | ⟨o, rfl, htree⟩
  · rw [htree]
    exact h.of_sameOutline (ScopeTree.sameOutline_contribute w.tree fun _ => rfl)
  · rw [htree]
    exact h.push name lines _
  · rw [htree]
    exact h.openClass name superName lines
  · exact ScopeTree.pop_eq_ok htree ▸ h.closeFunction
  · exact ScopeTree.closeClass_eq_ok htree ▸ h.closeClass

/-- So does a run. -/
theorem represented_performAll {es : List Errand} (h : w.tree.Represented)
    (done : w.performAll d s es = .ok after) : after.tree.Represented := by
  induction es generalizing w with
  | nil =>
    cases done
    exact h
  | cons e es ih =>
    rw [performAll_cons] at done
    obtain ⟨next, hnext, done⟩ := exists_of_bind_eq_ok done
    exact ih (represented_perform h hnext) done

end Walk

namespace Dialect

variable {d : Dialect} {s : Settings} {root : Document} {w : Walk} {report : Report}

/-- The indices are in order after a traversal. -/
theorem represented_of_walk (done : d.walk s root = .ok w) : w.tree.Represented := by
  obtain ⟨-, lines, hperform⟩ := performAll_of_walk done
  exact Walk.represented_performAll (ScopeTree.represented_start lines) hperform

/-- So a report on the scopes that a traversal has found is of the description above. -/
theorem assembled_of_build {dependencies : List (Dependency Document)} {errors : List Diagnostic}
    (done : d.walk s root = .ok w)
    (built : Report.build s (w.tree.map Number.int Document.string) dependencies errors =
      .ok report) :
    ∃ exact, report.AssembledFrom s (w.tree.map Number.int Document.string) dependencies errors
      exact :=
  (Report.build_eq_ok_iff ((represented_of_walk done).map Number.int Document.string)).mp built

/-- A report repeats the problems that the traversal met, in the order they were met. -/
theorem errors_of_analyze (done : d.walk s root = .ok w)
    (analyzed : d.analyze s root = .ok report) : report.errors = w.errors := by
  obtain ⟨⟨⟩, -, measured⟩ := exists_of_bind_eq_ok analyzed
  obtain ⟨w', done', built⟩ := exists_of_bind_eq_ok measured
  cases done.symm.trans done'
  obtain ⟨exact, hfrom⟩ := assembled_of_build done (eq_ok_of_mapError built)
  exact hfrom.errors

end Dialect

/-- A report lists the functions of a class as they stand in the list of all functions, rounded,
while averages and the maintainability index come from exact records. This holds for the scopes
after any operations and for those that a traversal finds. -/
theorem report_assembled (s : Settings) (dependencies : List (Dependency Document))
    (errors : List Diagnostic) :
    (∀ {τ : Type} [BEq τ] (value : τ → Document) (lines : Lines Number)
      (ops : List (ScopeTree.Op Number τ)),
      Report.Assembly s (((ScopeTree.start lines).attemptAll ops).map id value) dependencies
        errors) ∧
    ∀ (d : Dialect) (root : Document) (w : Walk), d.walk s root = .ok w →
      Report.Assembly s (w.tree.map Number.int Document.string) dependencies errors := by
  constructor
  · intro τ _ value lines ops
    have h := ScopeTree.represented_attemptAll (ScopeTree.represented_start lines) ops
    exact Report.assembly_of_represented (h.map id value) s dependencies errors
  · intro d root w done
    have h := Dialect.represented_of_walk done
    exact Report.assembly_of_represented (h.map Number.int Document.string) s dependencies errors

/-! ### A class in a function of another class -/

/-- Whole counts below `2 ^ b` and lines below `2 ^ 53`. -/
def Scope.IsSmall (b : Nat) (f : Scope Int String) : Prop :=
  f.lines.first.natAbs < 2 ^ 53 ∧ f.lines.last.natAbs < 2 ^ 53 ∧ f.logical.natAbs < 2 ^ b ∧
    f.cyclomatic.natAbs < 2 ^ b ∧ f.paramCount.natAbs < 2 ^ b ∧
    (f.operators.total < 2 ^ b ∧ f.operators.distinct < 2 ^ b) ∧
    f.operands.total < 2 ^ b ∧ f.operands.distinct < 2 ^ b

instance {b : Nat} {f : Scope Int String} : Decidable (f.IsSmall b) :=
  inferInstanceAs (Decidable (_ ∧ _))

theorem Scope.IsSmall.modest {b : Nat} {f : Scope Int String} (h : f.IsSmall b) :
    (f.map Number.int Document.string).Modest b := by
  obtain ⟨hfirst, hlast, hlogical, hcyclomatic, hparams, hoperators, hoperands⟩ := h
  rw [← Tally.total_map Document.string, ← Tally.distinct_map Document.string]
    at hoperators hoperands
  exact ⟨hfirst, hlast, hlogical, ⟨_, rfl⟩, hcyclomatic, hparams, ⟨hoperators.1, hoperators.2⟩,
    ⟨hoperands.1, hoperands.2⟩⟩

/-- There is a report on a tree with small counts. -/
theorem Report.exists_build {t : ScopeTree Int String} {b : Nat} (hmodule : t.module.IsSmall b)
    (hfunctions : ∀ f ∈ t.functions, f.IsSmall b)
    (hclasses : ∀ c ∈ t.classes, c.toScope.IsSmall b ∧ c.methods.length + 1 < 2 ^ b)
    (hlength : t.functions.length + 1 < 2 ^ b) (hlow : 20 ≤ b) (hb : b ≤ 200) (s : Settings)
    (dependencies : List (Dependency Document)) (errors : List Diagnostic) :
    ∃ r, build s (t.map Number.int Document.string) dependencies errors = .ok r := by
  have hsafe : Safe True (fun _ => True)
      (build s (t.map Number.int Document.string) dependencies errors) := by
    apply safe_build (b := b) (fun _ => hmodule.modest) _ _ _ hlow hb
    · intro _ f hf
      obtain ⟨g, hg, rfl⟩ := List.mem_map.mp hf
      exact (hfunctions g hg).modest
    · intro _ c hc
      obtain ⟨e, he, rfl⟩ := List.mem_map.mp hc
      exact ⟨(hclasses e he).1.modest, (hclasses e he).2⟩
    · intro _
      rwa [ScopeTree.map, List.length_map]
  rcases hsafe.exists_or with hr | ⟨hlarge, -⟩
  · exact hr
  · exact absurd trivial hlarge

/-- Two classes, of which the second one stands in the first function of the first. Closing fails
once, since no function is open there. -/
def Sample.classInMethod : List (ScopeTree.Op Int String) :=
  [.openClass (some (.string "Outer")) none ⟨2, 12⟩, .push (some (.string "first")) ⟨3, 9⟩ [],
    .addLogical 2, .openClass none none ⟨4, 8⟩, .push none ⟨5, 7⟩ [.string "x"],
    .addOperand "x", .addLogical 1, .pop, .closeClass, .pop,
    .push (some (.string "second")) ⟨10, 11⟩ [], .pop, .pop, .closeClass,
    .push (some (.string "free")) ⟨13, 14⟩ [], .addCyclomatic 1]

/-- The outer class lists the first and the third record, the inner one the second. -/
theorem report_assembled_classInMethod :
    let t := ((ScopeTree.start ⟨1, 20⟩).attemptAll (Sample.classInMethod.map .whole)).map id
      Document.string
    (∃ r outer inner, Report.build {} t [] [] = .ok r ∧
      (∃ exact, r.AssembledFrom {} t [] [] exact) ∧ r.methods.length = 4 ∧
      r.classes = [outer, inner] ∧
      outer.methods.map some = [r.methods[0]?, r.methods[2]?] ∧
      inner.methods.map some = [r.methods[1]?]) ∧
    ∃ w, Estree.dialect.walk {} Sample.nested = .ok w ∧
      Report.Assembly {} (w.tree.map Number.int Document.string) [] [] := by
  intro t
  have hassembly := (report_assembled {} [] []).1 Document.string ⟨1, 20⟩
    (Sample.classInMethod.map .whole)
  have hwhole : t = ((ScopeTree.start ⟨1, 20⟩).run Sample.classInMethod).map Number.int
      Document.string := rfl
  obtain ⟨r, hr⟩ : ∃ r, Report.build {} t [] [] = .ok r := by
    rw [hwhole]
    exact Report.exists_build (b := 20) (by decide +kernel) (by decide +kernel) (by decide +kernel)
      (by decide) (by decide) (by decide) {} [] []
  obtain ⟨exact, hfrom⟩ := (hassembly.built r).mp hr
  obtain ⟨outer, inner, hclasses⟩ := List.length_eq_two.mp hfrom.classes.length_eq.symm
  refine ⟨⟨r, outer, inner, hr, ⟨exact, hfrom⟩, hfrom.length_methods, hclasses, ?_, ?_⟩, ?_⟩
  · exact (hassembly.listed r hr 0 _ outer rfl (by rw [hclasses]; rfl)).1
  · exact (hassembly.listed r hr 1 _ inner rfl (by rw [hclasses]; rfl)).1
  · obtain ⟨report, done⟩ := Sample.analyze_nested
    obtain ⟨w, hw, -⟩ := Dialect.presents_of_analyze done
    exact ⟨w, hw, (report_assembled {} [] []).2 Estree.dialect Sample.nested w hw⟩

end CodeMetrics
