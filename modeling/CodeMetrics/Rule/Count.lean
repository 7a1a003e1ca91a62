import CodeMetrics.Rule.Condition

/-!
# `CodeMetrics.Rule.Count`: numbers that a node adds

A `Count` is a number of logical lines or of paths. It is fixed, chosen by a condition, or
given as a value, which has to spell a whole number.
-/

set_option autoImplicit false

namespace CodeMetrics

/-- A number that a node adds to a count. -/
inductive Count where
  | fixed (n : Int)
  /-- A number given as a value. -/
  | given (value : Document)
  /-- One of two numbers, by a condition. -/
  | choose (c : Condition) (yes no : Int)

/-- A value as a whole number. Values that do not count as set are zero, fractions are cut
off, and true is one. -/
def Document.wholeNumber (d : Document) : Except Fault Int :=
  if d.truthy then
    match d with
    | .int n => .ok n
    | .float x => .ok (Binary.ofFloat x).truncate
    | .string s =>
      match Text.wholeNumber s with
      | .ok n => .ok n
      | .error .malformed => .error (.notAWholeNumber s)
      | .error (.tooLong digits) => .error (.tooManyDigits digits)
    | .list _ | .object _ => .error .wholeNumberOfCollection
    | _ => .ok 1
  else .ok 0

namespace Count

/-- The number at a node. -/
def read (s : Settings) (p : Placed) : Count → Except Fault Int
  | .fixed n => .ok n
  | .given value => value.wholeNumber
  | .choose c yes no => do return if ← c.holds s p then yes else no

end Count

end CodeMetrics
