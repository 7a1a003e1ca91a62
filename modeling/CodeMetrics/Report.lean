import CodeMetrics.Dependency
import CodeMetrics.Error
import CodeMetrics.Report.Metrics
import CodeMetrics.Scope.Tree

/-!
# `CodeMetrics.Report`: the measures of a module

A report holds the measures of the module as a whole, of each function and of each class,
and averages of them. Everything is computed from exact counts, and rounded once when the
report is put together. The functions of a class are the very records that stand in the
list of all functions.
-/

set_option autoImplicit false

namespace CodeMetrics

/-- The measures of a function. -/
structure MethodReport where
  name : Option Document
  paramNames : List Document
  lines : Lines Number
  metrics : Metrics

/-- The measures of a class. -/
structure ClassReport where
  name : Option Document
  superName : Option Document
  lines : Lines Number
  aggregate : Metrics
  aggregateAverage : Metrics
  methodAverage : Metrics
  maintainability : Number
  methods : List MethodReport

/-- The measures of a module. -/
structure Report where
  lines : Lines Number
  aggregate : Metrics
  aggregateAverage : Metrics
  methodAverage : Metrics
  maintainability : Number
  methods : List MethodReport
  classes : List ClassReport
  dependencies : List (Dependency Document)
  errors : List Diagnostic
  settings : Document

/-! ### Putting a report together -/

namespace MethodReport

/-- The measures of a function, not rounded. -/
def ofScope (s : Scope Number Document) : Except ArithmeticFault MethodReport := do
  return {
    name := s.name, paramNames := s.paramNames, lines := s.lines
    metrics := ← Metrics.ofScope s }

/-- The same record with rounded numbers. -/
def rounded (m : MethodReport) : Except ArithmeticFault MethodReport := do
  return { m with metrics := ← m.metrics.rounded }

end MethodReport

namespace ClassReport

/-- The measures of a class whose functions have the given records. Those are not rounded
yet, and they are listed as they are. -/
def ofScope (s : Settings) (c : ClassScope Number Document) (methods : List MethodReport) :
    Except ArithmeticFault ClassReport := do
  let aggregate ← Metrics.ofScope c.toScope
  let maintainability ← aggregate.maintainability s methods.length
  let aggregateAverage ← aggregate.divide 1
  let methodAverage ← Metrics.mean (methods.map (·.metrics))
  return {
    name := c.name
    superName := c.superName
    lines := c.lines
    aggregate := ← aggregate.rounded
    aggregateAverage := ← aggregateAverage.rounded
    methodAverage := ← methodAverage.rounded
    maintainability, methods }

end ClassReport

namespace Report

/-- The records at some of the indices of functions, which start at one. -/
def select (records : List MethodReport) (indices : List Nat) : List MethodReport :=
  indices.filterMap fun i => if i = 0 then none else records[i - 1]?

/-- The report on a tree of scopes. Averages are taken of records that are not rounded, and
records are rounded last. -/
def build (s : Settings) (t : ScopeTree Number Document)
    (dependencies : List (Dependency Document)) (errors : List Diagnostic) :
    Except ArithmeticFault Report := do
  let aggregate ← Metrics.ofScope t.module
  let records ← t.functions.mapM MethodReport.ofScope
  let maintainability ← aggregate.maintainability s records.length
  let aggregateAverage ← aggregate.divide 1
  let methodAverage ← Metrics.mean (records.map (·.metrics))
  let classes ← t.classes.mapM fun c => ClassReport.ofScope s c (select records c.methods)
  let aggregate ← aggregate.rounded
  let aggregateAverage ← aggregateAverage.rounded
  let methodAverage ← methodAverage.rounded
  let methods ← records.mapM MethodReport.rounded
  return {
    lines := t.module.lines
    aggregate, aggregateAverage, methodAverage, maintainability, methods
    classes := List.zipWith
      (fun (r : ClassReport) c => { r with methods := select methods c.methods })
      classes t.classes
    dependencies, errors
    settings := s.echo }

/-- Whether no problem of the severity `error` was recorded. -/
def success (r : Report) : Bool :=
  !r.errors.any fun e => e.severity.isOneOf ["error"]

end Report

end CodeMetrics
