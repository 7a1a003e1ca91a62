/-!
# `CodeMetrics.Decimal.Binary`: binary fractions as exact numbers

A finite double is a whole number times a power of two. `Binary` is that pair with a
sign. It is what every exact question about a double goes through: whether it is
whole, what is left when the fraction is cut off, and which decimals read back to it.
In the other direction `Binary.nearest` rounds an exact ratio of two whole numbers to
the closest double, an exact half to the even neighbour.
-/

set_option autoImplicit false

namespace CodeMetrics

/-- A power of two. -/
def twoTo (power : Nat) : Nat := Nat.pow 2 power

/-- A power of ten. -/
def tenTo (power : Nat) : Nat := Nat.pow 10 power

/-- The number `mantissa * 2 ^ exponent`, negated if `negative` is set. -/
structure Binary where
  negative : Bool
  mantissa : Nat
  exponent : Int

namespace Binary

/-- The exponent of the smallest positive double. -/
def leastExponent : Int := -1074

/-- Whether a double is a number and not infinite. -/
def isFinite (x : Float) : Bool :=
  x.toBits.toNat / twoTo 52 % twoTo 11 != 2047

/-- Reads a finite double exactly. -/
def ofFloat (x : Float) : Binary :=
  let bits : Nat := x.toBits.toNat
  let fraction : Nat := bits % twoTo 52
  let scale : Nat := bits / twoTo 52 % twoTo 11
  { negative := bits / twoTo 63 == 1
    mantissa := if scale = 0 then fraction else fraction + twoTo 52
    exponent := if scale = 0 then leastExponent else (scale : Int) - 1075 }

/-- The value as a ratio of two whole numbers, without the sign. -/
def ratio (b : Binary) : Nat × Nat :=
  if 0 ≤ b.exponent then (b.mantissa * twoTo b.exponent.toNat, 1)
  else (b.mantissa, twoTo (-b.exponent).toNat)

/-- The value as a ratio of two whole numbers. -/
def signedRatio (b : Binary) : Int × Int :=
  let (num, den) := b.ratio
  (if b.negative then -(num : Int) else num, den)

/-- Whether the value is a whole number. -/
def isWhole (b : Binary) : Bool :=
  b.ratio.1 % b.ratio.2 == 0

/-- The whole number left when the fraction is cut off. -/
def truncate (b : Binary) : Int :=
  let whole : Int := (b.ratio.1 / b.ratio.2 : Nat)
  if b.negative then -whole else whole

/-- The largest whole number that is not above the value. -/
def floor (b : Binary) : Int :=
  if b.negative && !b.isWhole then b.truncate - 1 else b.truncate

/-- The whole number closest to `num / den`, the even one for an exact half. -/
def roundRatio (num den : Nat) : Nat :=
  let whole := num / den
  let twice := 2 * (num % den)
  if twice < den then whole
  else if den < twice then whole + 1
  else if whole % 2 = 0 then whole else whole + 1

/-- The exponent of the leading bit of `num / den`. -/
def leadingBit (num den : Nat) : Int :=
  let guess : Int := (num.log2 : Int) - (den.log2 : Int)
  let reached :=
    if 0 ≤ guess then den * twoTo guess.toNat ≤ num else den ≤ num * twoTo (-guess).toNat
  if reached then guess else guess - 1

/-- The double made of a mantissa below `2 ^ 53` and an exponent. Too large a value is
infinite. -/
def assemble (negative : Bool) (mantissa : Nat) (exponent : Int) : Float :=
  let sign : Nat := if negative then twoTo 63 else 0
  let magnitude : Nat :=
    if mantissa < twoTo 52 then mantissa
    else if 971 < exponent then 2047 * twoTo 52
    else (exponent + 1075).toNat * twoTo 52 + (mantissa - twoTo 52)
  Float.ofBits (UInt64.ofNat (sign + magnitude))

/-- The double closest to `num / den`, with an even mantissa for an exact half. -/
def nearest (negative : Bool) (num den : Nat) : Float :=
  if num = 0 then assemble negative 0 leastExponent
  else
    let exponent := max leastExponent (leadingBit num den - 52)
    let mantissa :=
      if 0 ≤ exponent then roundRatio num (den * twoTo exponent.toNat)
      else roundRatio (num * twoTo (-exponent).toNat) den
    if mantissa = twoTo 53 then assemble negative (twoTo 52) (exponent + 1)
    else assemble negative mantissa exponent

/-- The double closest to `mantissa * 10 ^ exponent`. Powers that are far out of range are
not formed. -/
def ofDecimal (negative : Bool) (mantissa : Nat) (exponent : Int) : Float :=
  if mantissa = 0 || exponent < -(401 + (mantissa.log2 : Int)) then
    assemble negative 0 leastExponent
  else if 400 < exponent then assemble negative (twoTo 52) 972
  else if 0 ≤ exponent then nearest negative (mantissa * tenTo exponent.toNat) 1
  else nearest negative mantissa (tenTo (-exponent).toNat)

end Binary

end CodeMetrics
