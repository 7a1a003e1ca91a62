import CodeMetrics.Decimal.Binary

/-!
# `CodeMetrics.Decimal.Shortest`: the fewest digits that read back

A double stands for all reals that round to it. Its shortest decimal is the one with
the fewest digits among them, and of those the closest to the double itself. The
search tries one digit, then two, and so on: if any decimal with that many digits
reads back, one of the two neighbours of the exact value does. Seventeen digits always
suffice.
-/

set_option autoImplicit false

namespace CodeMetrics

/-- The number `digits * 10 ^ exponent`. -/
structure Decimal where
  digits : Nat
  exponent : Int

namespace Decimal

/-- The number of decimal digits of a whole number. -/
def length (n : Nat) : Nat :=
  (Nat.toDigits 10 n).length

/-- Moves trailing zeros of the digits into the exponent. -/
def trim (d : Decimal) : Decimal :=
  go (length d.digits) d
where
  /-- Drops at most `fuel` zeros. -/
  go : Nat → Decimal → Decimal
    | 0, d => d
    | fuel + 1, d =>
      if d.digits % 10 = 0 then go fuel ⟨d.digits / 10, d.exponent + 1⟩ else d

/-- The reals that round to one double, as bounds over a common denominator. The double
itself is `value / scale`. -/
structure Rounding where
  low : Nat
  value : Nat
  high : Nat
  scale : Nat
  closed : Bool

/-- The reals that round to a positive double. The gap below a power of two is half the
gap above it. The bounds belong to the double when its mantissa is even. -/
def Rounding.of (b : Binary) : Rounding :=
  let below : Nat := if b.mantissa = twoTo 52 ∧ Binary.leastExponent < b.exponent then 1 else 2
  let unit : Nat := if 0 ≤ b.exponent then twoTo b.exponent.toNat else 1
  let scale : Nat := if 0 ≤ b.exponent then 1 else twoTo (-b.exponent).toNat
  { low := (4 * b.mantissa - below) * unit
    value := 4 * b.mantissa * unit
    high := (4 * b.mantissa + 2) * unit
    scale := 4 * scale
    closed := b.mantissa % 2 == 0 }

/-- Whether `digits * 10 ^ exponent` rounds to the double. -/
def Rounding.admits (r : Rounding) (d : Decimal) : Bool :=
  let num := if 0 ≤ d.exponent then d.digits * tenTo d.exponent.toNat * r.scale
    else d.digits * r.scale
  let den := if 0 ≤ d.exponent then 1 else tenTo (-d.exponent).toNat
  if r.closed then r.low * den ≤ num && num ≤ r.high * den
  else r.low * den < num && num < r.high * den

/-- The power of ten of the leading digit of `num / den`. -/
def leadingPower (num den : Nat) : Int :=
  let guess : Int := (length num : Int) - (length den : Int)
  let reached :=
    if 0 ≤ guess then den * tenTo guess.toNat ≤ num else den ≤ num * tenTo (-guess).toNat
  if reached then guess else guess - 1

/-- The decimal with digits on the grid `10 ^ exponent` that rounds to the double, the
closer one if both neighbours do and the even one if both are as close. -/
def Rounding.onGrid (r : Rounding) (exponent : Int) : Option Decimal :=
  let num := if 0 ≤ exponent then r.value else r.value * tenTo (-exponent).toNat
  let den := if 0 ≤ exponent then r.scale * tenTo exponent.toNat else r.scale
  let below : Decimal := ⟨num / den, exponent⟩
  let above : Decimal := ⟨num / den + 1, exponent⟩
  match r.admits below, r.admits above with
  | true, true => some ⟨Binary.roundRatio num den, exponent⟩
  | true, false => some below
  | false, true => some above
  | false, false => none

/-- Tries the grids from coarse to fine, `fuel` of them. -/
def Rounding.search (r : Rounding) : Nat → Int → Decimal
  | 0, exponent => ⟨r.value, exponent⟩
  | fuel + 1, exponent =>
    match r.onGrid exponent with
    | some d => d
    | none => r.search fuel (exponent - 1)

/-- The decimal with the fewest digits that reads back as the positive double `b`. -/
def shortest (b : Binary) : Decimal :=
  if b.mantissa = 0 then ⟨0, 0⟩
  else
    let r := Rounding.of b
    trim (r.search 17 (leadingPower r.value r.scale))

end Decimal

end CodeMetrics
