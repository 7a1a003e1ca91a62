import CodeMetrics.Number

/-!
# `CodeMetrics.Measure`: the formulas

Halstead's measures, the density of paths and the maintainability index, as functions of
plain counts. Every formula guards its own edge: no vocabulary, no operands and no logical
lines give zero, and the logarithm of a value that is not positive contributes nothing.

The formulas work on numbers of any size, so those with a product or a quotient may fail.
-/

set_option autoImplicit false

namespace CodeMetrics.Measure

/-- The logarithm `log` of a positive whole number. One too large for a double is split
into a fraction below one and a power of two. -/
def logOfInt (log : Float → Float) (n : Int) : Float :=
  if Number.isBeyond n then
    let bits := n.natAbs.log2 + 1
    let fraction := Binary.nearest false n.natAbs (twoTo bits)
    if fraction < 1.0 then log fraction + log 2.0 * Number.nearestFloat bits
    else log 0.5 + log 2.0 * Number.nearestFloat (bits + 1)
  else log (Number.nearestFloat n)

/-- The logarithm `log` of a positive number. -/
def logOf (log : Float → Float) : Number → Float
  | .int n => logOfInt log n
  | .float x => log x

/-- A logarithm of doubles that is known to stay in range: the logarithm of a finite positive
double, natural or to base two, lies between -1100 and 1100. -/
def inRange (log : Float → Float) (x : Float) : Float :=
  let y := log x
  if Binary.isFinite x && !(-1100.0 ≤ y && y ≤ 1100.0) then 0.0 else y

/-- The natural logarithm, zero for a value that is not positive. -/
def safeLog (value : Number) : Float :=
  if value.atMost 0 then 0.0 else logOf (inRange Float.log) value

/-- The volume: all tokens times the logarithm of the vocabulary. -/
def volume (operators operands distinctOperators distinctOperands : Number) :
    Except ArithmeticFault Number := do
  let length ← operators.plus operands
  let vocabulary ← distinctOperators.plus distinctOperands
  if vocabulary.atMost 1 then return .float 0.0
  length.times (.float (logOf (inRange Float.log2) vocabulary))

/-- The difficulty: half the different operators times the use of each operand. -/
def difficulty (distinctOperators distinctOperands operands : Number) :
    Except ArithmeticFault Number := do
  if distinctOperands.isZero then return .float 0.0
  (← distinctOperators.dividedBy 2).times (← operands.dividedBy distinctOperands)

/-- The effort. -/
def effort (difficulty volume : Number) : Except ArithmeticFault Number :=
  difficulty.times volume

/-- The estimated number of faults in the code. -/
def bugs (volume : Number) : Except ArithmeticFault Number :=
  volume.dividedBy 3000

/-- The estimated time to write the code, in seconds. -/
def time (effort : Number) : Except ArithmeticFault Number :=
  effort.dividedBy 18

/-- Paths in percent of the logical lines. -/
def density (cyclomatic logical : Number) : Except ArithmeticFault Number := do
  if logical.isZero then return .float 0.0
  (← cyclomatic.dividedBy logical).times 100

/-- The maintainability index. The scaled form runs from 0 to 100 and is cut off at zero. -/
def maintainability (effort cyclomatic logical : Number) (scaled : Bool) : Float :=
  let index := 171.0 - 3.42 * safeLog effort - 1.0 * safeLog cyclomatic - 16.2 * safeLog logical
  if scaled then
    let percent := index * 100.0 / 171.0
    if percent > 0.0 then percent else 0.0
  else index

/-- The largest whole number that is not above a double. -/
def floor (x : Float) : Except ArithmeticFault Int :=
  if Binary.isFinite x then .ok (Binary.ofFloat x).floor
  else if x.isNaN then .error .notANumber
  else .error .overflow

/-- The greatest number of decimal places whose power of ten is a double. -/
def maxPlaces : Int := 308

/-- Ten to a power. It is whole for a whole power that is not negative. -/
def scale (places : Number) : Except ArithmeticFault Number :=
  match places with
  | .int n =>
    if maxPlaces < n then .error .overflow
    else if 0 ≤ n then .ok (.int (tenTo n.toNat : Nat))
    else if Number.isBeyond n then .error .overflow
    else .ok (.float (Float.pow 10.0 (Number.nearestFloat n)))
  | .float x =>
    let power := Float.pow 10.0 x
    if Binary.isFinite power then .ok (.float power) else .error .overflow

/-- Rounds to a number of decimal places, an exact half upwards. Whole numbers stay as they
are. -/
def round (value : Number) (places : Number) : Except ArithmeticFault Number :=
  if value.isWhole then .ok value
  else do
    let scale ← scale places
    let scaled ← floor (value.toFloat * scale.toFloat + 0.5)
    (Number.int scaled).dividedBy scale

end CodeMetrics.Measure
