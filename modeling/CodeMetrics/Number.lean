import CodeMetrics.Decimal.Binary

/-!
# `CodeMetrics.Number`: whole numbers and binary fractions

Counts are whole numbers of any size and stay exact. Ratios and logarithms are doubles.
Arithmetic between two whole numbers is exact, and it moves to doubles as soon as one
side is a double or a division is made. A quotient of two whole numbers is the double
closest to the exact ratio.

A whole number can be too large for a double. So `plus`, `minus`, `times` and `dividedBy` may
fail, and an `ArithmeticFault` says why. Between two whole numbers only `dividedBy` can. A result
of doubles that grows too large is infinite and no fault.

Numbers are compared by their exact values, whatever their sort.
-/

set_option autoImplicit false

namespace CodeMetrics

/-- Why a calculation has no result. -/
inductive ArithmeticFault where
  /-- A value is beyond the range of doubles. -/
  | overflow
  | divisionByZero
  /-- A whole number was needed of a value that is no number. -/
  | notANumber
  deriving DecidableEq

/-- A whole number of any size, or a double. -/
inductive Number where
  | int (value : Int)
  | float (value : Float)
  deriving Inhabited

namespace Number

/-- The double closest to a whole number. -/
def nearestFloat (n : Int) : Float :=
  Binary.nearest (n < 0) n.natAbs 1

/-- The number as a double. A whole number beyond the range of doubles is infinite. -/
def toFloat : Number → Float
  | .int n => nearestFloat n
  | .float x => x

/-- The double closest to the ratio of two whole numbers. -/
def quotient (a b : Int) : Float :=
  Binary.nearest ((a < 0) != (b < 0)) a.natAbs b.natAbs

/-- Whether the ratio of two whole numbers is too large for a double. The bound is half
a step above the largest double, where rounding goes up. -/
def quotientOverflows (a b : Int) : Bool :=
  b.natAbs * (twoTo 1024 - twoTo 970) ≤ a.natAbs

/-- Whether a whole number is too large for a double. -/
def isBeyond (n : Int) : Bool :=
  quotientOverflows n 1

instance (n : Nat) : OfNat Number n := ⟨.int n⟩

/-! ### Order -/

/-- Whether a whole number is at most a double. -/
def intAtMost (n : Int) (x : Float) : Bool :=
  if Binary.isFinite x then
    let (num, den) := (Binary.ofFloat x).signedRatio
    n * den ≤ num
  else 0.0 < x

/-- Whether a whole number is at least a double. -/
def intAtLeast (n : Int) (x : Float) : Bool :=
  if Binary.isFinite x then
    let (num, den) := (Binary.ofFloat x).signedRatio
    num ≤ n * den
  else x < 0.0

/-- Whether the first number is at most the second. -/
def atMost : Number → Number → Bool
  | .int a, .int b => a ≤ b
  | .int a, .float b => intAtMost a b
  | .float a, .int b => intAtLeast b a
  | .float a, .float b => a ≤ b

/-- Whether the first number is at least the second. -/
def atLeast (a b : Number) : Bool :=
  b.atMost a

/-- Whether the first number is below the second. -/
def below : Number → Number → Bool
  | .int a, .int b => a < b
  | .int a, .float b => !b.isNaN && !intAtLeast a b
  | .float a, .int b => !a.isNaN && !intAtMost b a
  | .float a, .float b => a < b

/-- Whether the number is zero. -/
def isZero : Number → Bool
  | .int n => n == 0
  | .float x => x == 0.0

/-- Whether the number has no fraction. -/
def isWhole : Number → Bool
  | .int _ => true
  | .float x => Binary.isFinite x && (Binary.ofFloat x).isWhole

/-- The least whole number that is not below the number. -/
def ceiling : Number → Int
  | .int n => n
  | .float x =>
    let b := Binary.ofFloat x
    if b.isWhole then b.truncate else b.floor + 1

/-! ### Arithmetic -/

/-- The sum, exact for two whole numbers. -/
def add : Number → Number → Number
  | .int a, .int b => .int (a + b)
  | a, b => .float (a.toFloat + b.toFloat)

instance : Add Number := ⟨add⟩

/-- Whether a whole number would have to become a double and is too large for one. -/
def clashes : Number → Number → Bool
  | .int n, .float _ => isBeyond n
  | .float _, .int n => isBeyond n
  | _, _ => false

/-- The sum, if it can be formed. -/
def plus (a b : Number) : Except ArithmeticFault Number :=
  if a.clashes b then .error .overflow else .ok (a + b)

/-- The difference, exact for two whole numbers. -/
def minus (a b : Number) : Except ArithmeticFault Number :=
  if a.clashes b then .error .overflow
  else
    match a, b with
    | .int a, .int b => .ok (.int (a - b))
    | a, b => .ok (.float (a.toFloat - b.toFloat))

/-- The product, exact for two whole numbers. -/
def times (a b : Number) : Except ArithmeticFault Number :=
  if a.clashes b then .error .overflow
  else
    match a, b with
    | .int a, .int b => .ok (.int (a * b))
    | a, b => .ok (.float (a.toFloat * b.toFloat))

/-- The quotient, a double in every case. -/
def dividedBy (a b : Number) : Except ArithmeticFault Number :=
  if a.clashes b then .error .overflow
  else if b.isZero then .error .divisionByZero
  else
    match a, b with
    | .int a, .int b =>
      if quotientOverflows a b then .error .overflow else .ok (.float (quotient a b))
    | a, b => .ok (.float (a.toFloat / b.toFloat))

/-- Adds numbers from left to right, starting from `start`. -/
def sumFrom (start : Number) : List Number → Except ArithmeticFault Number
  | [] => .ok start
  | n :: rest => do (← start.plus n).sumFrom rest

/-- Adds the numbers from left to right, starting at zero. -/
def sum (values : List Number) : Except ArithmeticFault Number :=
  sumFrom 0 values

/-- Whole numbers have a sum of any size. -/
theorem int_plus_int (a b : Int) : plus (.int a) (.int b) = .ok (.int (a + b)) := rfl

/-- The sum of whole numbers is whole. -/
theorem sumFrom_int (start : Int) (values : List Int) :
    sumFrom (.int start) (values.map .int) = .ok (.int (values.foldl (· + ·) start)) := by
  induction values generalizing start with
  | nil => rfl
  | cons n rest ih =>
    simp only [List.map_cons, List.foldl_cons]
    exact ih (start + n)

end Number

end CodeMetrics
