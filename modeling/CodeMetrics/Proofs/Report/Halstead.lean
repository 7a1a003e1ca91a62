import CodeMetrics.Proofs.Scope.ClassAttribution
import CodeMetrics.Proofs.Traversal.Totality

/-!
# `CodeMetrics.Proofs.Report.Halstead`: what a report says about tokens

A report lists the different operators and operands of each scope and counts them. `Tells` says
what such a summary has to be for some tokens, in terms of the tokens alone. The summary of a
tally is of this kind (`TokenSummary.tells_ofTally`), and rounding changes none of its numbers,
because they are whole (`Halstead.Tells.rounded`).

The tokens of a scope are those that the nodes contribute which the scope owns. So the measures
of the module, of every function and of every class agree with the tokens that were met there
(`tokens_reported`).
-/

set_option autoImplicit false

namespace CodeMetrics

/-! ### Summaries of tokens -/

/-- A summary lists the different tokens in the order of their first occurrence, and counts both
them and all tokens. -/
structure TokenSummary.Tells (t : TokenSummary) (tokens : List String) : Prop where
  identifiers : t.identifiers = tokens.eraseDups.map Document.string
  nodup : t.identifiers.Nodup
  distinct : t.distinct = .int t.identifiers.length
  total : t.total = .int tokens.length
  distinct_le_total : t.identifiers.length ≤ tokens.length

/-- Both summaries agree with the tokens, and the length and the vocabulary are what they add up
to. -/
structure Halstead.Tells (h : Halstead) (operators operands : List String) : Prop where
  operators : h.operators.Tells operators
  operands : h.operands.Tells operands
  length : h.length = h.operators.total + h.operands.total
  vocabulary : h.vocabulary = h.operators.distinct + h.operands.distinct

namespace TokenSummary

/-- The summary of a tally agrees with the tokens that the tally counts. -/
theorem tells_ofTally {t : Tally String} {tokens : List String} (h : t.Counts tokens) :
    (ofTally (t.map Document.string)).Tells tokens := by
  have hidentifiers : (ofTally (t.map Document.string)).identifiers =
      tokens.eraseDups.map Document.string := by
    rw [ofTally, Tally.identifiers_map, h.identifiers]
  -- A token is listed only where it was met, so there are at least as many tokens as listed ones.
  have hpositive : t.Positive := by
    rw [h.eq_addAll]
    exact Tally.positive_empty.addAll tokens
  have hlength : (ofTally (t.map Document.string)).identifiers.length = t.distinct := by
    rw [ofTally, Tally.identifiers_map, List.length_map, Tally.identifiers, List.length_map,
      Tally.distinct]
  refine ⟨hidentifiers, ?_, ?_, ?_, ?_⟩
  · rw [hidentifiers]
    exact (Tally.nodup_eraseDups tokens).map fun a b hab => Document.string.inj hab
  · rw [hlength, ofTally, Tally.distinct_map]
  · rw [ofTally, Tally.total_map, h.total_eq]
  · rw [hlength, ← h.total_eq]
    exact hpositive.distinct_le_total

/-- Both numbers of a summary are whole, so they stay. -/
theorem Tells.mapM_round {t t' : TokenSummary} {tokens : List String} (h : t.Tells tokens)
    (hround : t.mapM (Measure.round · 3) = .ok t') : t' = t := by
  unfold mapM at hround
  rw [h.total, h.distinct] at hround
  cases hround
  rw [← h.total, ← h.distinct]

end TokenSummary

namespace Halstead

variable {operators operands : List String}

/-- The measures of two summaries that agree with the tokens. -/
theorem tells_ofTokens {a b : TokenSummary} {h : Halstead} (ha : a.Tells operators)
    (hb : b.Tells operands) (hdone : ofTokens a b = .ok h) : h.Tells operators operands := by
  unfold ofTokens at hdone
  obtain ⟨volume, -, hdone⟩ := exists_of_bind_eq_ok hdone
  obtain ⟨difficulty, -, hdone⟩ := exists_of_bind_eq_ok hdone
  obtain ⟨effort, -, hdone⟩ := exists_of_bind_eq_ok hdone
  obtain ⟨bugs, -, hdone⟩ := exists_of_bind_eq_ok hdone
  obtain ⟨time, -, hdone⟩ := exists_of_bind_eq_ok hdone
  cases hdone
  exact ⟨ha, hb, rfl, rfl⟩

/-- Rounding changes neither the summaries nor what they add up to. -/
theorem Tells.rounded {h h' : Halstead} (htells : h.Tells operators operands)
    (hround : h.mapM (Measure.round · 3) = .ok h') : h'.Tells operators operands := by
  unfold mapM at hround
  obtain ⟨a, ha, hround⟩ := exists_of_bind_eq_ok hround
  obtain ⟨b, hb, hround⟩ := exists_of_bind_eq_ok hround
  obtain ⟨length, hlength, hround⟩ := exists_of_bind_eq_ok hround
  obtain ⟨vocabulary, hvocabulary, hround⟩ := exists_of_bind_eq_ok hround
  obtain ⟨difficulty, -, hround⟩ := exists_of_bind_eq_ok hround
  obtain ⟨volume, -, hround⟩ := exists_of_bind_eq_ok hround
  obtain ⟨effort, -, hround⟩ := exists_of_bind_eq_ok hround
  obtain ⟨bugs, -, hround⟩ := exists_of_bind_eq_ok hround
  obtain ⟨time, -, hround⟩ := exists_of_bind_eq_ok hround
  cases hround
  cases htells.operators.mapM_round ha
  cases htells.operands.mapM_round hb
  refine ⟨htells.operators, htells.operands, ?_, ?_⟩
  · -- The sum of two whole numbers is whole, so it stays as well.
    rw [htells.length, htells.operators.total, htells.operands.total] at hlength
    cases hlength
    rw [htells.operators.total, htells.operands.total]
  · rw [htells.vocabulary, htells.operators.distinct, htells.operands.distinct] at hvocabulary
    cases hvocabulary
    rw [htells.operators.distinct, htells.operands.distinct]

end Halstead

/-! ### Measures of a scope -/

namespace Metrics

/-- The measures are those of a scope, rounded. -/
def Rounds (shown : Metrics) (scope : Scope Number Document) : Prop :=
  ∃ exact, ofScope scope = .ok exact ∧ exact.rounded = .ok shown

/-- The measures are those of a scope, rounded. Both before and after rounding, they agree with
the tokens that some occurrences contribute. -/
def Shows (shown : Metrics) (scope : Scope Int String) (d : Dialect) (s : Settings)
    (vs : List Occurrence) : Prop :=
  let operators := vs.flatMap fun o => (d.contribution s o.place).operators
  let operands := vs.flatMap fun o => (d.contribution s o.place).operands
  ∃ exact, ofScope (scope.map Number.int Document.string) = .ok exact ∧
    exact.rounded = .ok shown ∧
    exact.halstead.Tells operators operands ∧ shown.halstead.Tells operators operands

/-- The measures of a scope contain those of its tallies. -/
theorem halstead_of_ofScope {scope : Scope Number Document} {m : Metrics}
    (h : ofScope scope = .ok m) :
    Halstead.ofTokens (.ofTally scope.operators) (.ofTally scope.operands) = .ok m.halstead := by
  unfold ofScope at h
  obtain ⟨physical, -, h⟩ := exists_of_bind_eq_ok h
  obtain ⟨density, -, h⟩ := exists_of_bind_eq_ok h
  obtain ⟨halstead, hhalstead, h⟩ := exists_of_bind_eq_ok h
  cases h
  exact hhalstead

/-- Rounding measures rounds those of the tokens. -/
theorem halstead_of_rounded {m m' : Metrics} (h : m.rounded = .ok m') :
    m.halstead.mapM (Measure.round · 3) = .ok m'.halstead := by
  unfold rounded mapM at h
  obtain ⟨physical, -, h⟩ := exists_of_bind_eq_ok h
  obtain ⟨logical, -, h⟩ := exists_of_bind_eq_ok h
  obtain ⟨cyclomatic, -, h⟩ := exists_of_bind_eq_ok h
  obtain ⟨density, -, h⟩ := exists_of_bind_eq_ok h
  obtain ⟨paramCount, -, h⟩ := exists_of_bind_eq_ok h
  obtain ⟨halstead, hhalstead, h⟩ := exists_of_bind_eq_ok h
  cases h
  exact hhalstead

/-- The measures of a scope agree with what the scope has collected. -/
theorem Rounds.shows {scope : Scope Int String} {d : Dialect} {s : Settings} {base : Int}
    {vs : List Occurrence} {shown : Metrics}
    (h : shown.Rounds (scope.map Number.int Document.string))
    (hcollects : scope.Collects d s base vs) : shown.Shows scope d s vs := by
  obtain ⟨exact, hexact, hshown⟩ := h
  have hhalstead := halstead_of_ofScope hexact
  rw [Scope.map] at hhalstead
  have htells := Halstead.tells_ofTokens (TokenSummary.tells_ofTally hcollects.operators)
    (TokenSummary.tells_ofTally hcollects.operands) hhalstead
  exact ⟨exact, hexact, hshown, htells, htells.rounded (halstead_of_rounded hshown)⟩

end Metrics

/-! ### The parts of a report -/

/-- A report shows the rounded measures of the scopes of a tree, in the same order. The functions
of a class are among those of the module. -/
structure Report.Presents (r : Report) (t : ScopeTree Number Document) : Prop where
  aggregate : r.aggregate.Rounds t.module
  length_methods : r.methods.length = t.functions.length
  methods : ∀ (k : Nat) (f : Scope Number Document), t.functions[k]? = some f →
    ∃ m, r.methods[k]? = some m ∧ m.metrics.Rounds f
  length_classes : r.classes.length = t.classes.length
  classes : ∀ (k : Nat) (c : ClassScope Number Document), t.classes[k]? = some c →
    ∃ e, r.classes[k]? = some e ∧ e.aggregate.Rounds c.toScope
  listed : ∀ c ∈ r.classes, ∀ m ∈ c.methods, m ∈ r.methods

/-- The record of a function has its measures. -/
theorem MethodReport.rounds_of_rounded {scope : Scope Number Document} {m m' : MethodReport}
    (h : ofScope scope = .ok m) (h' : m.rounded = .ok m') : m'.metrics.Rounds scope := by
  obtain ⟨exact, hexact, h⟩ := exists_of_bind_eq_ok h
  cases h
  obtain ⟨shown, hshown, h'⟩ := exists_of_bind_eq_ok h'
  cases h'
  exact ⟨exact, hexact, hshown⟩

/-- The record of a class has its measures. -/
theorem ClassReport.rounds_of_ofScope {s : Settings} {c : ClassScope Number Document}
    {methods : List MethodReport} {r : ClassReport} (h : ofScope s c methods = .ok r) :
    r.aggregate.Rounds c.toScope := by
  unfold ofScope at h
  obtain ⟨exact, hexact, h⟩ := exists_of_bind_eq_ok h
  obtain ⟨maintainability, -, h⟩ := exists_of_bind_eq_ok h
  obtain ⟨aggregateAverage, -, h⟩ := exists_of_bind_eq_ok h
  obtain ⟨methodAverage, -, h⟩ := exists_of_bind_eq_ok h
  obtain ⟨shown, hshown, h⟩ := exists_of_bind_eq_ok h
  obtain ⟨aggregateAverage', -, h⟩ := exists_of_bind_eq_ok h
  obtain ⟨methodAverage', -, h⟩ := exists_of_bind_eq_ok h
  cases h
  exact ⟨exact, hexact, hshown⟩

/-- A report that was put together shows the scopes it was put together from. -/
theorem Report.presents_of_build {s : Settings} {t : ScopeTree Number Document}
    {dependencies : List (Dependency Document)} {errors : List Diagnostic} {report : Report}
    (h : build s t dependencies errors = .ok report) : report.Presents t := by
  unfold build at h
  obtain ⟨exact, hexact, h⟩ := exists_of_bind_eq_ok h
  obtain ⟨records, hrecords, h⟩ := exists_of_bind_eq_ok h
  obtain ⟨maintainability, -, h⟩ := exists_of_bind_eq_ok h
  obtain ⟨aggregateAverage, -, h⟩ := exists_of_bind_eq_ok h
  obtain ⟨methodAverage, -, h⟩ := exists_of_bind_eq_ok h
  obtain ⟨classes, hclasses, h⟩ := exists_of_bind_eq_ok h
  obtain ⟨shown, hshown, h⟩ := exists_of_bind_eq_ok h
  obtain ⟨aggregateAverage', -, h⟩ := exists_of_bind_eq_ok h
  obtain ⟨methodAverage', -, h⟩ := exists_of_bind_eq_ok h
  obtain ⟨methods, hmethods, h⟩ := exists_of_bind_eq_ok h
  cases h
  obtain ⟨hrecordsLength, hrecords⟩ := exists_getElem?_of_mapM hrecords
  obtain ⟨hmethodsLength, hmethods⟩ := exists_getElem?_of_mapM hmethods
  obtain ⟨hclassesLength, hclasses⟩ := exists_getElem?_of_mapM hclasses
  refine ⟨⟨exact, hexact, hshown⟩, hmethodsLength.trans hrecordsLength, ?_, ?_, ?_, ?_⟩
  · intro k f hf
    obtain ⟨m, hm, hofScope⟩ := hrecords k f hf
    obtain ⟨m', hm', hrounded⟩ := hmethods k m hm
    exact ⟨m', hm', MethodReport.rounds_of_rounded hofScope hrounded⟩
  · rw [List.length_zipWith, hclassesLength, Nat.min_self]
  · intro k c hc
    obtain ⟨r, hr, hofScope⟩ := hclasses k c hc
    have hrounds := ClassReport.rounds_of_ofScope hofScope
    refine ⟨{ r with methods := select methods c.methods }, ?_, hrounds⟩
    rw [List.getElem?_zipWith, hr, hc]
  -- The functions of a class are selected anew, from the rounded records.
  · intro c hc m hm
    obtain ⟨k, hk⟩ := List.getElem?_of_mem hc
    rw [List.getElem?_zipWith] at hk
    split at hk
    · cases hk
      exact mem_of_mem_select hm
    · cases hk

/-! ### Reports on a tree -/

namespace Dialect

variable {d : Dialect} {s : Settings} {root : Document} {report : Report}

/-- A report is put together from the scopes that the traversal found. -/
theorem presents_of_analyze (done : d.analyze s root = .ok report) :
    ∃ w, d.walk s root = .ok w ∧ report.Presents (w.tree.map Number.int Document.string) := by
  obtain ⟨⟨⟩, -, done⟩ := exists_of_bind_eq_ok done
  obtain ⟨w, hwalk, done⟩ := exists_of_bind_eq_ok done
  exact ⟨w, hwalk, Report.presents_of_build (eq_ok_of_mapError done)⟩

/-- What a report says about the tokens of a scope agrees with the tokens that the nodes contribute
which the scope owns. This holds of the module, of every function and of every class. -/
theorem tokens_reported (done : d.analyze s root = .ok report) :
    let j := d.journal s root
    ∃ w, d.walk s root = .ok w ∧
      report.aggregate.Shows w.tree.module d s j.visited ∧
      report.methods.length = (j.opened .function).length ∧
      (∀ (k : Nat) (o : Occurrence), (j.opened .function)[k]? = some o →
        ∃ f m, w.tree.functions[k]? = some f ∧ report.methods[k]? = some m ∧
          m.metrics.Shows f d s (j.visited.filter (·.ownedBy d .function o))) ∧
      report.classes.length = (j.opened .classBody).length ∧
      (∀ (k : Nat) (o : Occurrence), (j.opened .classBody)[k]? = some o →
        ∃ c r, w.tree.classes[k]? = some c ∧ report.classes[k]? = some r ∧
          r.aggregate.Shows c.toScope d s (j.visited.filter (·.ownedBy d .classBody o))) ∧
      ∀ r ∈ report.classes, ∀ m ∈ r.methods, m ∈ report.methods := by
  intro j
  obtain ⟨w, hwalk, hpresents⟩ := presents_of_analyze done
  have hfunctions := attributesFunctions_of_walk hwalk
  have hclasses := attributesClasses_of_walk hwalk
  have htracks := tracks_of_walk hwalk
  have hmodule : report.aggregate.Shows w.tree.module d s j.visited :=
    hpresents.aggregate.shows hfunctions.module
  refine ⟨w, hwalk, hmodule, ?_, ?_, ?_, ?_, hpresents.listed⟩
  · rw [hpresents.length_methods, ScopeTree.map, List.length_map]
    exact htracks.length_functions
  · intro k o ho
    obtain ⟨f, hf, hbelongs⟩ := hfunctions.functions k o ho
    obtain ⟨m, hm, hrounds⟩ := hpresents.methods k (f.map Number.int Document.string) (by
      rw [ScopeTree.map, List.getElem?_map, hf, Option.map_some])
    exact ⟨f, m, hf, hm, hrounds.shows hbelongs.collects⟩
  · rw [hpresents.length_classes, ScopeTree.map, List.length_map]
    exact htracks.length_classes
  · intro k o ho
    obtain ⟨c, hc, hbelongs⟩ := hclasses k o ho
    obtain ⟨r, hr, hrounds⟩ := hpresents.classes k (c.map Number.int Document.string) (by
      rw [ScopeTree.map, List.getElem?_map, hc, Option.map_some])
    exact ⟨c, r, hc, hr, Metrics.Rounds.shows hrounds hbelongs.collects⟩

end Dialect

/-- The module with nested scopes has a report. -/
theorem Sample.analyze_nested : ∃ report, Estree.dialect.analyze {} Sample.nested = .ok report := by
  have hshaped : Sample.nested.isShapedTo 16 = true := by decide +kernel
  have hsize : Sample.nested.size < 2 ^ 96 := by decide +kernel
  exact Dialect.exists_report_of_isShapedTo List.mem_cons_self rfl rfl hshaped hsize

/-- The report on the module with nested scopes lists the seven names that occur in it. Of the names
in the outer class, those of its two functions are its own, but not those of the inner class. -/
theorem tokens_reported_nested :
    ∃ report, Estree.dialect.analyze {} Sample.nested = .ok report ∧
      report.methods.length = 3 ∧ report.classes.length = 2 ∧
      report.aggregate.halstead.operands.total = .int 11 ∧
      report.aggregate.halstead.operands.identifiers =
        ["Outer", "run", "x", "y", "z", "Inner", "stop"].map Document.string ∧
      ∃ r, report.classes[0]? = some r ∧
        r.aggregate.halstead.operands.total = .int 8 ∧
        r.aggregate.halstead.operands.identifiers =
          ["run", "x", "y", "z", "Inner"].map Document.string := by
  obtain ⟨report, done⟩ := Sample.analyze_nested
  obtain ⟨w, -, ⟨-, -, -, -, hmodule⟩, hmethods, -, hclasses, hclass, -⟩ :=
    Dialect.tokens_reported done
  -- What is visited can be evaluated, unlike the report, whose volumes are logarithms.
  have houter : ((Estree.dialect.journal {} Sample.nested).opened .classBody)[0]?.map (fun p =>
      ((Estree.dialect.journal {} Sample.nested).visited.filter
        (·.ownedBy Estree.dialect .classBody p)).flatMap
          fun o => (Estree.dialect.contribution {} o.place).operands) =
      some ["run", "x", "y", "z", "y", "Inner", "x", "y"] := by decide +kernel
  have hall : ((Estree.dialect.journal {} Sample.nested).visited.flatMap
      fun o => (Estree.dialect.contribution {} o.place).operands) =
      ["Outer", "run", "x", "y", "z", "y", "Inner", "stop", "x", "x", "y"] := by decide +kernel
  obtain ⟨o, ho, hnames⟩ := Option.map_eq_some_iff.mp houter
  obtain ⟨c, r, -, hr, -, -, -, -, hshown⟩ := hclass 0 o ho
  refine ⟨report, done, ?_, ?_, ?_, ?_, r, hr, ?_, ?_⟩
  · rw [hmethods]
    decide +kernel
  · rw [hclasses]
    decide +kernel
  · rw [hmodule.operands.total, hall]
    rfl
  · rw [hmodule.operands.identifiers, hall]
    exact congrArg (List.map Document.string) (by decide +kernel)
  · rw [hshown.operands.total, hnames]
    rfl
  · rw [hshown.operands.identifiers, hnames]
    exact congrArg (List.map Document.string) (by decide +kernel)

end CodeMetrics
