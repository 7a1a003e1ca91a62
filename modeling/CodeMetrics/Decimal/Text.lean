import CodeMetrics.Decimal.Shortest

/-!
# `CodeMetrics.Decimal.Text`: numbers as text

Whole numbers are written with all their digits. A double is written with the fewest
digits that read back: positionally while its leading digit stands between the places
`fromPower` and `belowPower`, and with an exponent outside of them.
-/

set_option autoImplicit false

namespace CodeMetrics.Decimal

/-- The decimal digits of a whole number. -/
def natText (n : Nat) : String :=
  String.ofList (Nat.toDigits 10 n)

/-- A whole number with its sign. -/
def intText (n : Int) : String :=
  if n < 0 then "-" ++ natText n.natAbs else natText n.natAbs

/-- Where positional writing begins and ends, and how wide an exponent is at least. -/
structure FloatStyle where
  fromPower : Int
  belowPower : Int
  exponentWidth : Nat

/-- `count` zeros. -/
def zeros (count : Nat) : List Char :=
  List.replicate count '0'

/-- Digits with a point after the first `point` of them, which may lie outside of the
digits on either side. A whole number keeps one zero after its point. -/
def positional (digits : List Char) (point : Int) : List Char :=
  if point ≤ 0 then ['0', '.'] ++ zeros (-point).toNat ++ digits
  else
    let whole := point.toNat
    if digits.length ≤ whole then digits ++ zeros (whole - digits.length) ++ ['.', '0']
    else digits.take whole ++ ['.'] ++ digits.drop whole

/-- Digits with a point after the first one and the power of ten it stands for. -/
def scientific (width : Nat) (digits : List Char) (power : Int) : List Char :=
  let places := Nat.toDigits 10 power.natAbs
  let mantissa := match digits with
    | first :: second :: rest => first :: '.' :: second :: rest
    | short => short
  mantissa ++ ['e', if power < 0 then '-' else '+'] ++ zeros (width - places.length) ++ places

/-- A decimal in the given style. -/
def written (style : FloatStyle) (d : Decimal) : List Char :=
  let digits := Nat.toDigits 10 d.digits
  let power : Int := (digits.length : Int) + d.exponent - 1
  if style.fromPower ≤ power ∧ power < style.belowPower then positional digits (power + 1)
  else scientific style.exponentWidth digits power

/-- A finite double in the given style. -/
def floatText (style : FloatStyle) (x : Float) : String :=
  let b := Binary.ofFloat x
  let text := written style (shortest b)
  String.ofList (if b.negative then '-' :: text else text)

end CodeMetrics.Decimal
