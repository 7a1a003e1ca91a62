import CodeMetrics.Proofs.Report.Range
import CodeMetrics.Report

/-!
# `CodeMetrics.Proofs.Report.Totality`: when a report can be put together

A report is made of averages, ratios and rounded numbers. `Metrics.All P` says that all numbers of
some measures have the property `P`, and each way of getting measures from measures has a lemma
that carries a bound on all numbers from one to the other.

Averaged measures are divided once more, namely by averaged logical lines. These are a count
divided by a count, so they are zero or not too small (`Number.Discrete`), and the quotient stays
in range.

The result is `Report.safe_build`: putting a report together never divides by zero, and it succeeds
if all counts are below `2 ^ 200` and all lines below `2 ^ 53`.
-/

set_option autoImplicit false

namespace CodeMetrics

open Number (Within Discrete)

variable {fits : Prop} {P Q R : Number → Prop} {f : Number → Except ArithmeticFault Number}

/-! ### A property of all numbers -/

/-- Both numbers have a property. -/
structure TokenSummary.All (P : Number → Prop) (t : TokenSummary) : Prop where
  total : P t.total
  distinct : P t.distinct

/-- All of Halstead's measures have a property. -/
structure Halstead.All (P : Number → Prop) (h : Halstead) : Prop where
  operators : h.operators.All P
  operands : h.operands.All P
  length : P h.length
  vocabulary : P h.vocabulary
  difficulty : P h.difficulty
  volume : P h.volume
  effort : P h.effort
  bugs : P h.bugs
  time : P h.time

/-- All numbers of some measures have a property. -/
structure Metrics.All (P : Number → Prop) (m : Metrics) : Prop where
  physical : P m.physical
  logical : P m.logical
  cyclomatic : P m.cyclomatic
  density : P m.density
  halstead : m.halstead.All P
  paramCount : P m.paramCount

theorem TokenSummary.safe_mapM (hf : ∀ n, (fits → P n) → Safe fits Q (f n)) {t : TokenSummary}
    (h : fits → t.All P) : Safe fits (All Q) (t.mapM f) := by
  unfold mapM
  refine (hf _ fun hfits => (h hfits).total).bind fun total htotal => ?_
  refine (hf _ fun hfits => (h hfits).distinct).bind fun distinct hdistinct => ?_
  exact .ok fun hfits => ⟨htotal hfits, hdistinct hfits⟩

theorem Halstead.safe_mapM (hf : ∀ n, (fits → P n) → Safe fits Q (f n)) {h : Halstead}
    (hall : fits → h.All P) : Safe fits (All Q) (h.mapM f) := by
  unfold mapM
  refine (TokenSummary.safe_mapM hf fun hfits => (hall hfits).operators).bind fun _ h₁ => ?_
  refine (TokenSummary.safe_mapM hf fun hfits => (hall hfits).operands).bind fun _ h₂ => ?_
  refine (hf _ fun hfits => (hall hfits).length).bind fun _ h₃ => ?_
  refine (hf _ fun hfits => (hall hfits).vocabulary).bind fun _ h₄ => ?_
  refine (hf _ fun hfits => (hall hfits).difficulty).bind fun _ h₅ => ?_
  refine (hf _ fun hfits => (hall hfits).volume).bind fun _ h₆ => ?_
  refine (hf _ fun hfits => (hall hfits).effort).bind fun _ h₇ => ?_
  refine (hf _ fun hfits => (hall hfits).bugs).bind fun _ h₈ => ?_
  refine (hf _ fun hfits => (hall hfits).time).bind fun _ h₉ => ?_
  exact .ok fun hfits => ⟨h₁ hfits, h₂ hfits, h₃ hfits, h₄ hfits, h₅ hfits, h₆ hfits, h₇ hfits,
    h₈ hfits, h₉ hfits⟩

namespace Metrics

/-- So it is with a weaker property. -/
theorem All.mono {m : Metrics} (h : m.All P) (hPQ : ∀ n, P n → Q n) : m.All Q where
  physical := hPQ _ h.physical
  logical := hPQ _ h.logical
  cyclomatic := hPQ _ h.cyclomatic
  density := hPQ _ h.density
  halstead :=
    { operators := ⟨hPQ _ h.halstead.operators.total, hPQ _ h.halstead.operators.distinct⟩
      operands := ⟨hPQ _ h.halstead.operands.total, hPQ _ h.halstead.operands.distinct⟩
      length := hPQ _ h.halstead.length
      vocabulary := hPQ _ h.halstead.vocabulary
      difficulty := hPQ _ h.halstead.difficulty
      volume := hPQ _ h.halstead.volume
      effort := hPQ _ h.halstead.effort
      bugs := hPQ _ h.halstead.bugs
      time := hPQ _ h.halstead.time }
  paramCount := hPQ _ h.paramCount

/-- Of the logical lines more may be known than of the other numbers. -/
theorem safe_mapM (hf : ∀ n, (fits → P n) → Safe fits Q (f n)) {m : Metrics}
    (hall : fits → m.All P) (hlogical : Safe fits (fun n => Q n ∧ R n) (f m.logical)) :
    Safe fits (fun m' => m'.All Q ∧ R m'.logical) (m.mapM f) := by
  unfold mapM
  refine (hf _ fun hfits => (hall hfits).physical).bind fun _ h₁ => ?_
  refine hlogical.bind fun _ h₂ => ?_
  refine (hf _ fun hfits => (hall hfits).cyclomatic).bind fun _ h₃ => ?_
  refine (hf _ fun hfits => (hall hfits).density).bind fun _ h₄ => ?_
  refine (hf _ fun hfits => (hall hfits).paramCount).bind fun _ h₅ => ?_
  refine (Halstead.safe_mapM hf fun hfits => (hall hfits).halstead).bind fun _ h₆ => ?_
  exact .ok fun hfits => ⟨⟨h₁ hfits, (h₂ hfits).1, h₃ hfits, h₄ hfits, h₆ hfits, h₅ hfits⟩,
    (h₂ hfits).2⟩

end Metrics

/-! ### Measures of one scope -/

variable {b c k : Nat}

/-- A scope with whole counts below `2 ^ b` and lines below `2 ^ 53`. -/
structure Scope.Modest (b : Nat) (s : Scope Number Document) : Prop where
  first : s.lines.first.Within 53
  last : s.lines.last.Within 53
  logical : s.logical.Within b
  whole : ∃ n, s.logical = .int n
  cyclomatic : s.cyclomatic.Within b
  paramCount : s.paramCount.natAbs < 2 ^ b
  operators : (TokenSummary.ofTally s.operators).All (Within b)
  operands : (TokenSummary.ofTally s.operands).All (Within b)

/-- Measures with all numbers below `2 ^ k` and a whole number of logical lines. -/
structure Metrics.Modest (k : Nat) (m : Metrics) : Prop where
  all : m.All (Within k)
  whole : ∃ n, m.logical = .int n

theorem Halstead.safe_ofTokens {operators operands : TokenSummary}
    (h₁ : fits → operators.All (Within b)) (h₂ : fits → operands.All (Within b))
    (hdiscrete : fits → operands.distinct.Discrete 0) (hb : b ≤ 300) :
    Safe fits (All (Within (3 * b + 30))) (ofTokens operators operands) := by
  unfold ofTokens
  refine (Measure.safe_volume (fun hfits => (h₁ hfits).total) (fun hfits => (h₂ hfits).total)
    (fun hfits => (h₁ hfits).distinct) (fun hfits => (h₂ hfits).distinct) (by omega)).bind
    fun volume hvolume => ?_
  refine (Measure.safe_difficulty (fun hfits => (h₁ hfits).distinct)
    (fun hfits => (h₂ hfits).distinct) (fun hfits => (h₂ hfits).total) hdiscrete (by omega)).bind
    fun difficulty hdifficulty => ?_
  -- Effort is a product, and so has the largest bound of them all.
  refine (Number.safe_times hdifficulty hvolume (by omega)).bind fun effort heffort => ?_
  refine (Number.safe_dividedBy_int (j := 12) hvolume (by decide) (fun _ => by decide)
    (by decide) (by omega)).bind fun bugs hbugs => ?_
  refine (Number.safe_dividedBy_int (j := 12) heffort (by decide) (fun _ => by decide)
    (by decide) (by omega)).bind fun time htime => ?_
  refine .ok fun hfits => ?_
  have hoperators := h₁ hfits
  have hoperands := h₂ hfits
  exact
    { operators := ⟨hoperators.total.mono (by omega), hoperators.distinct.mono (by omega)⟩
      operands := ⟨hoperands.total.mono (by omega), hoperands.distinct.mono (by omega)⟩
      length := (hoperators.total.add hoperands.total (by omega)).mono (by omega)
      vocabulary := (hoperators.distinct.add hoperands.distinct (by omega)).mono (by omega)
      difficulty := (hdifficulty hfits).mono (by omega)
      volume := (hvolume hfits).mono (by omega)
      effort := (heffort hfits).mono (by omega)
      bugs := (hbugs hfits).mono (by omega)
      time := (htime hfits).mono (by omega) }

namespace Metrics

theorem safe_ofScope {s : Scope Number Document} (h : fits → s.Modest b) (hlow : 20 ≤ b)
    (hb : b ≤ 300) : Safe fits (Modest (3 * b + 30)) (ofScope s) := by
  unfold ofScope
  have hextent : Safe fits (Within 59) s.lines.extent := by
    unfold Lines.extent
    refine (Number.safe_minus (fun hfits => (h hfits).last) (fun hfits => (h hfits).first)
      (by omega)).bind fun difference hdifference => ?_
    exact Number.safe_plus (b := 1) hdifference (fun _ => (by decide : (1 : Int).natAbs < 2 ^ 56))
      (by omega)
  refine hextent.bind fun physical hphysical => ?_
  -- Logical lines are whole, so they are zero, where nothing is divided, or at least one.
  have hdensity := Measure.safe_density (c := 0) (fun hfits => (h hfits).cyclomatic)
    (fun hfits => (h hfits).logical) (fun hfits => by
      obtain ⟨n, hn⟩ := (h hfits).whole
      rw [hn]
      exact Number.discrete_int n 0) (by omega)
  refine hdensity.bind fun density hdensity => ?_
  refine (Halstead.safe_ofTokens (fun hfits => (h hfits).operators)
    (fun hfits => (h hfits).operands) (fun _ => Number.discrete_int _ 0) hb).bind
    fun halstead hhalstead => ?_
  refine .ok fun hfits => ⟨?_, (h hfits).whole⟩
  have hscope := h hfits
  exact
    { physical := (hphysical hfits).mono (by omega)
      logical := hscope.logical.mono (by omega)
      cyclomatic := hscope.cyclomatic.mono (by omega)
      density := (hdensity hfits).mono (by omega)
      halstead := hhalstead hfits
      paramCount := Within.mono (a := .int _) hscope.paramCount (by omega) }

/-! ### Averages -/

/-- Dividing by a count. The logical lines become zero or a number that is not too small. -/
theorem safe_divide {m : Metrics} {divisor : Nat} (h : fits → m.Modest k) (hdivisor : divisor ≠ 0)
    (hsmall : fits → divisor < 2 ^ c) (hkc : k + c ≤ 900) :
    Safe fits (All (Within (k + c + 14))) (m.divide divisor) := by
  have hint : (divisor : Int) ≠ 0 := by omega
  have hdivide : ∀ n : Number, (fits → n.Within k) →
      Safe fits (Within (k + 2)) (n.dividedBy (.int divisor)) := fun n hn =>
    Number.safe_dividedBy_int hn hint hsmall (by omega) (by omega)
  -- The density is taken anew, so the quotient of the lines becomes a divisor itself.
  have hlogical : Safe fits (fun n => n.Within (k + 2) ∧ n.Discrete c)
      (m.logical.dividedBy (.int divisor)) := by
    refine (hdivide _ fun hfits => (h hfits).all.logical).and fun quotient hquotient hfits => ?_
    obtain ⟨n, hn⟩ := (h hfits).whole
    have hlines := (h hfits).all.logical
    rw [hn] at hquotient hlines
    exact Number.discrete_dividedBy hquotient hlines (by omega) hint (hsmall hfits) (by omega)
  unfold divide
  refine (safe_mapM hdivide (fun hfits => (h hfits).all) hlogical).bind fun scaled hscaled => ?_
  refine (Measure.safe_density (fun hfits => (hscaled hfits).1.cyclomatic)
    (fun hfits => (hscaled hfits).1.logical) (fun hfits => (hscaled hfits).2) (by omega)).bind
    fun density hdensity => ?_
  refine .ok fun hfits => ?_
  have hall : scaled.All (Within (k + c + 14)) :=
    (hscaled hfits).1.mono fun n hn => hn.mono (by omega)
  exact { hall with density := (hdensity hfits).mono (by omega) }

/-- The average of one number. -/
theorem safe_average {ms : List Metrics} {number : Metrics → Number} (hne : ms ≠ [])
    (h : fits → ∀ m ∈ ms, (number m).Within k) (hlength : fits → ms.length < 2 ^ c)
    (hkc : k + c ≤ 900) : Safe fits (Within (k + c + 57)) (average ms number) := by
  unfold average
  refine (Number.safe_sum (k := k) (c := c) (by omega) (ms.map number) ?_ ?_).bind
    fun sum hsum => ?_
  · intro hfits n hn
    obtain ⟨m, hm, rfl⟩ := List.mem_map.mp hn
    exact h hfits m hm
  · simpa using hlength
  · exact Number.safe_dividedBy_int hsum (by simpa using hne) hlength (by omega) (by omega)

/-- Averaging measures of which none has a large number. -/
theorem safe_mean {ms : List Metrics} (h : fits → ∀ m ∈ ms, m.All (Within k))
    (hlength : fits → ms.length < 2 ^ c) (hkc : k + c ≤ 900) :
    Safe fits (All (Within (k + c + 57))) (mean ms) := by
  unfold mean
  split
  case isTrue hempty =>
    have hzero : Within (k + c + 57) 0 := Nat.two_pow_pos _
    exact .ok fun _ => ⟨hzero, hzero, hzero, hzero,
      ⟨⟨hzero, hzero⟩, ⟨hzero, hzero⟩, hzero, hzero, hzero, hzero, hzero, hzero, hzero⟩, hzero⟩
  case isFalse hne =>
    -- Each of the sixteen numbers is averaged on its own, and each average can be the one that
    -- fails.
    have havg : ∀ number : Metrics → Number,
        (∀ m : Metrics, m.All (Within k) → (number m).Within k) →
          Safe fits (Within (k + c + 57)) (average ms number) := fun number hnumber =>
      safe_average (by simpa using hne) (fun hfits m hm => hnumber m (h hfits m hm)) hlength hkc
    refine (havg _ fun m hm => hm.physical).bind fun _ h₁ => ?_
    refine (havg _ fun m hm => hm.logical).bind fun _ h₂ => ?_
    refine (havg _ fun m hm => hm.cyclomatic).bind fun _ h₃ => ?_
    refine (havg _ fun m hm => hm.density).bind fun _ h₄ => ?_
    refine (havg _ fun m hm => hm.halstead.operators.total).bind fun _ h₅ => ?_
    refine (havg _ fun m hm => hm.halstead.operators.distinct).bind fun _ h₆ => ?_
    refine (havg _ fun m hm => hm.halstead.operands.total).bind fun _ h₇ => ?_
    refine (havg _ fun m hm => hm.halstead.operands.distinct).bind fun _ h₈ => ?_
    refine (havg _ fun m hm => hm.halstead.length).bind fun _ h₉ => ?_
    refine (havg _ fun m hm => hm.halstead.vocabulary).bind fun _ h₁₀ => ?_
    refine (havg _ fun m hm => hm.halstead.difficulty).bind fun _ h₁₁ => ?_
    refine (havg _ fun m hm => hm.halstead.volume).bind fun _ h₁₂ => ?_
    refine (havg _ fun m hm => hm.halstead.effort).bind fun _ h₁₃ => ?_
    refine (havg _ fun m hm => hm.halstead.bugs).bind fun _ h₁₄ => ?_
    refine (havg _ fun m hm => hm.halstead.time).bind fun _ h₁₅ => ?_
    refine (havg _ fun m hm => hm.paramCount).bind fun _ h₁₆ => ?_
    refine .ok fun hfits => ?_
    exact
      { physical := h₁ hfits
        logical := h₂ hfits
        cyclomatic := h₃ hfits
        density := h₄ hfits
        halstead :=
          { operators := ⟨h₅ hfits, h₆ hfits⟩
            operands := ⟨h₇ hfits, h₈ hfits⟩
            length := h₉ hfits
            vocabulary := h₁₀ hfits
            difficulty := h₁₁ hfits
            volume := h₁₂ hfits
            effort := h₁₃ hfits
            bugs := h₁₄ hfits
            time := h₁₅ hfits }
        paramCount := h₁₆ hfits }

/-! ### Rounding -/

theorem safe_rounded {m : Metrics} (h : fits → m.All (Within k)) (hk : k ≤ 980) :
    Safe fits (fun _ => True) m.rounded := by
  have hround : ∀ n : Number, (fits → n.Within k) →
      Safe fits (Within (k + 18)) (Measure.round n 3) := fun n hn =>
    Measure.safe_round hn rfl (by decide) (by decide) hk
  have hlogical : Safe fits (fun n => n.Within (k + 18) ∧ True) (Measure.round m.logical 3) :=
    (hround _ fun hfits => (h hfits).logical).mono fun n hn => ⟨hn, trivial⟩
  exact (safe_mapM hround h hlogical).mono fun _ _ => trivial

theorem safe_maintainability {s : Settings} {m : Metrics} {methods : Nat} (h : fits → m.Modest k)
    (hmethods : fits → methods + 1 < 2 ^ c) (hkc : k + c ≤ 900) :
    Safe fits (fun _ => True) (m.maintainability s methods) := by
  unfold maintainability
  refine (safe_divide h (Nat.succ_ne_zero _) hmethods hkc).bind fun per hper => ?_
  have hindex : fits → Number.Within 29 (.float (Measure.maintainability per.halstead.effort
      per.cyclomatic per.logical (s.on .newmi))) := fun hfits =>
    Measure.within_maintainability (hper hfits).halstead.effort (hper hfits).cyclomatic
      (hper hfits).logical _ (by omega)
  split
  · exact (Measure.safe_round hindex rfl (by decide) (by decide)
      (by decide)).mono fun _ _ => trivial
  · exact (Measure.safe_round hindex rfl (by decide) (by decide)
      (by decide)).mono fun _ _ => trivial

end Metrics

/-! ### Reports -/

theorem MethodReport.safe_ofScope {s : Scope Number Document} (h : fits → s.Modest b)
    (hlow : 20 ≤ b) (hb : b ≤ 300) :
    Safe fits (fun m => m.metrics.Modest (3 * b + 30)) (ofScope s) := by
  unfold ofScope
  exact (Metrics.safe_ofScope h hlow hb).bind fun metrics hmetrics => .ok hmetrics

theorem MethodReport.safe_rounded {m : MethodReport} (h : fits → m.metrics.Modest k)
    (hk : k ≤ 980) : Safe fits (fun _ => True) m.rounded := by
  unfold rounded
  exact (Metrics.safe_rounded (fun hfits => (h hfits).all) hk).bind fun _ _ => .ok fun _ => trivial

theorem ClassReport.safe_ofScope {s : Settings} {c : ClassScope Number Document}
    {methods : List MethodReport} (h : fits → c.toScope.Modest b)
    (hmethods : fits → ∀ m ∈ methods, m.metrics.Modest (3 * b + 30))
    (hlength : fits → methods.length + 1 < 2 ^ b) (hlow : 20 ≤ b) (hb : b ≤ 200) :
    Safe fits (fun _ => True) (ofScope s c methods) := by
  unfold ofScope
  refine (Metrics.safe_ofScope h hlow (by omega)).bind fun aggregate haggregate => ?_
  refine (Metrics.safe_maintainability haggregate hlength (by omega)).bind fun _ _ => ?_
  refine (Metrics.safe_divide (c := 1) haggregate (by decide) (fun _ => by decide)
    (by omega)).bind fun aggregateAverage haggregateAverage => ?_
  refine (Metrics.safe_mean (c := b) (k := 3 * b + 30) ?_ ?_ (by omega)).bind
    fun methodAverage hmethodAverage => ?_
  · intro hfits m hm
    obtain ⟨r, hr, rfl⟩ := List.mem_map.mp hm
    exact (hmethods hfits r hr).all
  · intro hfits
    rw [List.length_map]
    have := hlength hfits
    omega
  refine (Metrics.safe_rounded (fun hfits => (haggregate hfits).all) (by omega)).bind
    fun _ _ => ?_
  refine (Metrics.safe_rounded haggregateAverage (by omega)).bind fun _ _ => ?_
  refine (Metrics.safe_rounded hmethodAverage (by omega)).bind fun _ _ => ?_
  exact .ok fun _ => trivial

namespace Report

theorem mem_of_mem_select {records : List MethodReport} {indices : List Nat} {m : MethodReport}
    (h : m ∈ select records indices) : m ∈ records := by
  obtain ⟨i, -, hi⟩ := List.mem_filterMap.mp h
  split at hi
  · cases hi
  · exact List.mem_of_getElem? hi

theorem length_select_le (records : List MethodReport) (indices : List Nat) :
    (select records indices).length ≤ indices.length :=
  List.length_filterMap_le _ _

/-- Putting a report together never divides by zero, and it succeeds if the counts are not
too large. -/
theorem safe_build {s : Settings} {t : ScopeTree Number Document}
    {dependencies : List (Dependency Document)} {errors : List Diagnostic}
    (hmodule : fits → t.module.Modest b) (hfunctions : fits → ∀ f ∈ t.functions, f.Modest b)
    (hclasses : fits → ∀ c ∈ t.classes, c.toScope.Modest b ∧ c.methods.length + 1 < 2 ^ b)
    (hlength : fits → t.functions.length + 1 < 2 ^ b) (hlow : 20 ≤ b) (hb : b ≤ 200) :
    Safe fits (fun _ => True) (build s t dependencies errors) := by
  unfold build
  refine (Metrics.safe_ofScope hmodule hlow (by omega)).bind fun aggregate haggregate => ?_
  refine (Safe.mapM t.functions fun f hf => MethodReport.safe_ofScope
    (fun hfits => hfunctions hfits f hf) hlow (by omega)).bind fun records hrecords => ?_
  have hcount : fits → records.length + 1 < 2 ^ b := by
    intro hfits
    rw [(hrecords hfits).1]
    exact hlength hfits
  refine (Metrics.safe_maintainability haggregate hcount (by omega)).bind fun _ _ => ?_
  refine (Metrics.safe_divide (c := 1) haggregate (by decide) (fun _ => by decide)
    (by omega)).bind fun aggregateAverage haggregateAverage => ?_
  -- The sum over the methods grows with their number, so the bound on it is needed here.
  refine (Metrics.safe_mean (c := b) (k := 3 * b + 30) ?_ ?_ (by omega)).bind
    fun methodAverage hmethodAverage => ?_
  · intro hfits m hm
    obtain ⟨r, hr, rfl⟩ := List.mem_map.mp hm
    exact ((hrecords hfits).2 r hr).all
  · intro hfits
    rw [List.length_map]
    have := hcount hfits
    omega
  refine (Safe.mapM t.classes fun c hc => ClassReport.safe_ofScope
    (fun hfits => (hclasses hfits c hc).1)
    (fun hfits m hm => (hrecords hfits).2 m (mem_of_mem_select hm)) (fun hfits => ?_) hlow
    hb).bind fun classes _ => ?_
  · have := (hclasses hfits c hc).2
    have := length_select_le records c.methods
    omega
  refine (Metrics.safe_rounded (fun hfits => (haggregate hfits).all) (by omega)).bind
    fun _ _ => ?_
  refine (Metrics.safe_rounded haggregateAverage (by omega)).bind fun _ _ => ?_
  refine (Metrics.safe_rounded hmethodAverage (by omega)).bind fun _ _ => ?_
  refine (Safe.mapM (P := fun _ => True) records fun r hr => MethodReport.safe_rounded
    (fun hfits => (hrecords hfits).2 r hr) (by omega)).bind fun _ _ => ?_
  exact .ok fun _ => trivial

end Report

end CodeMetrics
