import CodeMetrics.Document.Number
import CodeMetrics.Report

/-!
# `CodeMetrics.Report.Layout`: reports as documents

The fields of a report under their public names, in the order of those names.
-/

set_option autoImplicit false

namespace CodeMetrics

/-- A list of texts as a document. -/
def Document.strings (texts : List String) : Document :=
  .list (texts.map .string)

/-- The numbers of a tally. Averages have no identifiers. -/
def TokenSummary.toDocument (t : TokenSummary) (named : Bool) : Document :=
  let counts := [("distinct", t.distinct.toDocument), ("total", t.total.toDocument)]
  .object (if named then counts ++ [("identifiers", .list t.identifiers)] else counts)

/-- Halstead's measures. -/
def Halstead.toDocument (h : Halstead) (named : Bool) : Document :=
  .object
    [("bugs", h.bugs.toDocument), ("difficulty", h.difficulty.toDocument),
     ("effort", h.effort.toDocument), ("length", h.length.toDocument),
     ("operands", h.operands.toDocument named), ("operators", h.operators.toDocument named),
     ("time", h.time.toDocument), ("vocabulary", h.vocabulary.toDocument),
     ("volume", h.volume.toDocument)]

/-- The fields of the measures of a scope. -/
def Metrics.fields (m : Metrics) (named : Bool) : List (String × Document) :=
  [("cyclomatic", m.cyclomatic.toDocument), ("cyclomaticDensity", m.density.toDocument),
   ("halstead", m.halstead.toDocument named), ("paramCount", m.paramCount.toDocument),
   ("sloc",
    .object [("logical", m.logical.toDocument), ("physical", m.physical.toDocument)])]

/-- The measures of a scope. Averages have no identifiers. -/
def Metrics.toDocument (m : Metrics) (named : Bool) : Document :=
  .object (m.fields named)

/-- The measures of a function. -/
def MethodReport.toDocument (m : MethodReport) : Document :=
  .object (m.metrics.fields true ++
    [("lineEnd", m.lines.last.toDocument), ("lineStart", m.lines.first.toDocument),
     ("name", m.name.getD .null), ("paramNames", .list m.paramNames)])

/-- The measures of a class. -/
def ClassReport.toDocument (c : ClassReport) : Document :=
  .object
    [("aggregate", c.aggregate.toDocument true),
     ("aggregateAverage", c.aggregateAverage.toDocument false),
     ("lineEnd", c.lines.last.toDocument), ("lineStart", c.lines.first.toDocument),
     ("maintainability", c.maintainability.toDocument),
     ("methodAverage", c.methodAverage.toDocument false),
     ("methods", .list (c.methods.map MethodReport.toDocument)),
     ("name", c.name.getD .null), ("superClassName", c.superName.getD .null)]

/-- A dependency. -/
def Dependency.toDocument (d : Dependency Document) : Document :=
  .object [("line", d.line), ("path", d.path), ("type", .string d.type)]

/-- A recorded problem. -/
def Diagnostic.toDocument (d : Diagnostic) : Document :=
  .object
    [("lineEnd", d.last), ("lineStart", d.first), ("message", d.message), ("name", d.name),
     ("severity", d.severity)]

/-- The measures of a module. -/
def Report.toDocument (r : Report) : Document :=
  .object
    [("aggregate", r.aggregate.toDocument true),
     ("aggregateAverage", r.aggregateAverage.toDocument false),
     ("classes", .list (r.classes.map ClassReport.toDocument)),
     ("dependencies", .list (r.dependencies.map Dependency.toDocument)),
     ("errors", .list (r.errors.map Diagnostic.toDocument)),
     ("lineEnd", r.lines.last.toDocument), ("lineStart", r.lines.first.toDocument),
     ("maintainability", r.maintainability.toDocument),
     ("methodAverage", r.methodAverage.toDocument false),
     ("methods", .list (r.methods.map MethodReport.toDocument)),
     ("settings", r.settings)]

end CodeMetrics
