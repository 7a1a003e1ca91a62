import CodeMetrics.Report

/-!
# `CodeMetrics.Report.Grade`: a letter for a module

The maintainability index of a module, brought to a range from 0 to 100, decides a letter
from A to F in steps of twenty.
-/

set_option autoImplicit false

namespace CodeMetrics

/-- A letter for the maintainability of a module. -/
inductive Grade where
  | a | b | c | d | f
  deriving DecidableEq

namespace Grade

/-- The grade of an index between 0 and 100. -/
def ofScore (score : Number) : Grade :=
  if score.atLeast 80 then .a
  else if score.atLeast 60 then .b
  else if score.atLeast 40 then .c
  else if score.atLeast 20 then .d
  else .f

/-- The letter of a grade. -/
def letter : Grade → String
  | .a => "A"
  | .b => "B"
  | .c => "C"
  | .d => "D"
  | .f => "F"

end Grade

/-- The grade of a module. An index that is not scaled is brought to the range of grades. -/
def Report.grade (r : Report) : Grade :=
  if (r.settings.get "newmi").truthy then .ofScore r.maintainability
  else .ofScore (.float (r.maintainability.toFloat * 100.0 / 171.0))

end CodeMetrics
