import CodeMetrics.Measure
import CodeMetrics.Scope
import CodeMetrics.Settings

/-!
# `CodeMetrics.Report.Metrics`: the measures of one scope

`Metrics` are the numbers of a scope, or an average of such. They are computed from exact
counts. `Metrics.mean` averages each number by itself, so an averaged density is a mean of
densities, while `Metrics.divide` takes the density anew.

Counts have any size, so every calculation may fail. The first one that does decides.
-/

set_option autoImplicit false

namespace CodeMetrics

/-- The operators or operands of a scope. -/
structure TokenSummary where
  total : Number := 0
  distinct : Number := 0
  identifiers : List Document := []

/-- Halstead's measures. -/
structure Halstead where
  operators : TokenSummary := {}
  operands : TokenSummary := {}
  length : Number := 0
  vocabulary : Number := 0
  difficulty : Number := 0
  volume : Number := 0
  effort : Number := 0
  bugs : Number := 0
  time : Number := 0

/-- The measures of a scope, or an average of such. -/
structure Metrics where
  physical : Number := 0
  logical : Number := 0
  cyclomatic : Number := 0
  density : Number := 0
  halstead : Halstead := {}
  paramCount : Number := 0

/-! ### Measures of one scope -/

namespace TokenSummary

/-- The numbers of a tally. -/
def ofTally (t : Tally Document) : TokenSummary :=
  { total := .int t.total, distinct := .int t.distinct, identifiers := t.identifiers }

/-- Applies a function to both numbers. -/
def mapM (f : Number → Except ArithmeticFault Number) (t : TokenSummary) :
    Except ArithmeticFault TokenSummary := do
  return { t with total := ← f t.total, distinct := ← f t.distinct }

end TokenSummary

namespace Halstead

/-- Halstead's measures of some operators and operands. -/
def ofTokens (operators operands : TokenSummary) : Except ArithmeticFault Halstead := do
  let volume ←
    Measure.volume operators.total operands.total operators.distinct operands.distinct
  let difficulty ← Measure.difficulty operators.distinct operands.distinct operands.total
  let effort ← Measure.effort difficulty volume
  return {
    operators, operands
    length := operators.total + operands.total
    vocabulary := operators.distinct + operands.distinct
    difficulty, volume, effort
    bugs := ← Measure.bugs volume
    time := ← Measure.time effort }

/-- Applies a function to every number. -/
def mapM (f : Number → Except ArithmeticFault Number) (h : Halstead) :
    Except ArithmeticFault Halstead := do
  return {
    operators := ← h.operators.mapM f
    operands := ← h.operands.mapM f
    length := ← f h.length
    vocabulary := ← f h.vocabulary
    difficulty := ← f h.difficulty
    volume := ← f h.volume
    effort := ← f h.effort
    bugs := ← f h.bugs
    time := ← f h.time }

end Halstead

namespace Metrics

/-- The measures of a scope. -/
def ofScope (s : Scope Number Document) : Except ArithmeticFault Metrics := do
  return {
    physical := ← s.lines.extent
    logical := s.logical
    cyclomatic := s.cyclomatic
    density := ← Measure.density s.cyclomatic s.logical
    halstead := ← Halstead.ofTokens (.ofTally s.operators) (.ofTally s.operands)
    paramCount := .int s.paramCount }

/-- Applies a function to every number. -/
def mapM (f : Number → Except ArithmeticFault Number) (m : Metrics) :
    Except ArithmeticFault Metrics := do
  let physical ← f m.physical
  let logical ← f m.logical
  let cyclomatic ← f m.cyclomatic
  let density ← f m.density
  let paramCount ← f m.paramCount
  let halstead ← m.halstead.mapM f
  return { physical, logical, cyclomatic, density, halstead, paramCount }

/-- Rounds every number to three places. -/
def rounded (m : Metrics) : Except ArithmeticFault Metrics :=
  m.mapM (Measure.round · 3)

/-- Divides every number. The density is taken anew from the divided numbers. -/
def divide (m : Metrics) (divisor : Nat) : Except ArithmeticFault Metrics := do
  let scaled ← m.mapM fun n => n.dividedBy (.int divisor)
  return { scaled with density := ← Measure.density scaled.cyclomatic scaled.logical }

/-- The average of one number over several measures. -/
def average (ms : List Metrics) (number : Metrics → Number) : Except ArithmeticFault Number := do
  (← Number.sum (ms.map number)).dividedBy (.int ms.length)

/-- The average of every number, zero if there is nothing to average. -/
def mean (ms : List Metrics) : Except ArithmeticFault Metrics := do
  if ms.isEmpty then return {}
  let avg := average ms
  return {
    physical := ← avg (·.physical)
    logical := ← avg (·.logical)
    cyclomatic := ← avg (·.cyclomatic)
    density := ← avg (·.density)
    halstead := {
      operators := {
        total := ← avg (·.halstead.operators.total)
        distinct := ← avg (·.halstead.operators.distinct) }
      operands := {
        total := ← avg (·.halstead.operands.total)
        distinct := ← avg (·.halstead.operands.distinct) }
      length := ← avg (·.halstead.length)
      vocabulary := ← avg (·.halstead.vocabulary)
      difficulty := ← avg (·.halstead.difficulty)
      volume := ← avg (·.halstead.volume)
      effort := ← avg (·.halstead.effort)
      bugs := ← avg (·.halstead.bugs)
      time := ← avg (·.halstead.time) }
    paramCount := ← avg (·.paramCount) }

/-- The maintainability index of a scope with `methods` functions in it, from the average
over those functions and the scope itself. The scaled index has two places, the other
three. -/
def maintainability (s : Settings) (m : Metrics) (methods : Nat) :
    Except ArithmeticFault Number := do
  let per ← m.divide (methods + 1)
  let index :=
    Measure.maintainability per.halstead.effort per.cyclomatic per.logical (s.on .newmi)
  Measure.round (.float index) (if s.on .newmi then 2 else 3)

end Metrics

end CodeMetrics
