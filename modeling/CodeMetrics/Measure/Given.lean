import CodeMetrics.Document.Number
import CodeMetrics.Fault
import CodeMetrics.Measure
import CodeMetrics.Text.RealNumber

/-!
# `CodeMetrics.Measure.Given`: the formulas on values

The formulas of `Measure` on values as they are given. A value that is no number cannot be
calculated with, but a formula that gives zero beforehand does not look at it. Two texts or
two lists can be joined in place of a sum, and either can be repeated in place of a product.
-/

set_option autoImplicit false

namespace CodeMetrics.Measure.Given

/-- The number that a value stands for. -/
def number (d : Document) : Except Fault Number :=
  match d.number? with
  | some n => .ok n
  | none => .error .unusableArgument

/-- A fault of a calculation. -/
def checked {α : Type} (result : Except ArithmeticFault α) : Except Fault α :=
  result.mapError .arithmetic

/-- Whether a value is the number zero. -/
def isZero (d : Document) : Bool :=
  d.number?.any Number.isZero

/-- Whether two values are texts, or both are lists. -/
def canJoin : Document → Document → Bool
  | .string _, .string _ => true
  | .list _, .list _ => true
  | _, _ => false

/-- The natural logarithm, zero for a value that is not positive. -/
def safeLog (value : Document) : Except Fault Number := do
  return .float (Measure.safeLog (← number value))

/-- The volume. The length is a sum of numbers, but without a vocabulary it is not used. -/
def volume (operators operands distinctOperators distinctOperands : Document) :
    Except Fault Number := do
  let joined := canJoin operators operands
  if !joined then
    let _ ← checked ((← number operators).plus (← number operands))
  let distinctOperators ← number distinctOperators
  let distinctOperands ← number distinctOperands
  let vocabulary ← checked (distinctOperators.plus distinctOperands)
  if vocabulary.atMost 1 then return .float 0.0
  checked (Measure.volume (← number operators) (← number operands) distinctOperators
    distinctOperands)

/-- The difficulty. -/
def difficulty (distinctOperators distinctOperands operands : Document) :
    Except Fault Number := do
  if isZero distinctOperands then return .float 0.0
  let half ← checked ((← number distinctOperators).dividedBy 2)
  let use ← checked ((← number operands).dividedBy (← number distinctOperands))
  checked (half.times use)

/-- The least number of repetitions that is out of range. -/
def repetitionBound : Nat := twoTo 63

/-- A text or a list, repeated. -/
def repeated (d : Document) (times : Number) : Except Fault Document := do
  let count ← match times with
    | .int n => pure n
    | .float _ => throw .unusableArgument
  let fits (length : Nat) : Bool :=
    count.natAbs < repetitionBound && length * count.toNat < repetitionBound
  match d with
  | .string s =>
    if fits s.length then
      return .string (String.ofList (List.replicate count.toNat s.toList).flatten)
    else throw (.arithmetic .overflow)
  | .list items =>
    if fits items.length then return .list (List.replicate count.toNat items).flatten
    else throw (.arithmetic .overflow)
  | _ => throw .unusableArgument

/-- The effort. -/
def effort (difficulty volume : Document) : Except Fault Document :=
  match difficulty.number?, volume.number? with
  | some a, some b => do return (← checked (Measure.effort a b)).toDocument
  | some a, none => repeated volume a
  | none, some b => repeated difficulty b
  | none, none => .error .unusableArgument

/-- The estimated number of faults in the code. -/
def bugs (volume : Document) : Except Fault Number := do
  checked (Measure.bugs (← number volume))

/-- The estimated time to write the code, in seconds. -/
def time (effort : Document) : Except Fault Number := do
  checked (Measure.time (← number effort))

/-- Paths in percent of the logical lines. -/
def density (cyclomatic logical : Document) : Except Fault Number := do
  if isZero logical then return .float 0.0
  checked (Measure.density (← number cyclomatic) (← number logical))

/-- The maintainability index. -/
def maintainability (effort cyclomatic logical scaled : Document) : Except Fault Number := do
  return .float (Measure.maintainability (← number effort) (← number cyclomatic)
    (← number logical) scaled.truthy)

/-- The least number of places for which a text cannot be repeated. -/
def repetitionPlaces : Int := 19

/-- Rounds to a number of decimal places. Whole values stay as they are, and so does a text
that writes one. -/
def round (value places : Document) : Except Fault Document := do
  match value with
  | .int _ | .bool _ => return value
  | .float x =>
    if (Number.float x).isWhole then return value
    return (← checked (Measure.round (.float x) (← number places))).toDocument
  | .string text =>
    match Text.realNumber? text with
    | none => throw (.notARealNumber text)
    | some x =>
      if (Number.float x).isWhole then return value
      match ← number places with
      | .int n => throw (if n < repetitionPlaces then .unusableArgument else .arithmetic .overflow)
      | .float _ => throw .unusableArgument
  | _ => throw .unusableArgument

end CodeMetrics.Measure.Given
