import CodeMetrics.Decimal.Binary
import CodeMetrics.Text.WholeNumber

/-!
# `CodeMetrics.Text.RealNumber`: doubles written in a text

A text writes a double if it has digits, with a point somewhere among or around them and a
power of ten behind them, a sign before them or none, and blanks around it all. Digits may
be of any script, and single underscores may stand between two digits. Infinity and what is
no number are written as words.
-/

set_option autoImplicit false

namespace CodeMetrics.Text

/-- The text without the blanks around it. -/
def withoutBlanks (cs : List Char) : List Char :=
  ((cs.dropWhile isNumberBlank).reverse.dropWhile isNumberBlank).reverse

/-- Whether every underscore stands between two digits. `before` is whether a digit comes
right before. -/
def joinsDigits (before : Bool) : List Char → Bool
  | [] => true
  | '_' :: c :: rest => before && isDigit c && joinsDigits true rest
  | ['_'] => false
  | c :: rest => joinsDigits (isDigit c) rest

/-- The power of ten that ends a number: none, or the mark and a whole number. -/
def power? : List Char → Option Int
  | [] => some 0
  | mark :: rest =>
    let (negative, digits) := splitSign rest
    if (mark = 'e' || mark = 'E') && !digits.isEmpty && digits.all isDigit then
      let n : Int := digitsValue 0 digits
      some (if negative then -n else n)
    else none

/-- The digits after the point, and what follows them. -/
def splitFraction : List Char → List Char × List Char
  | '.' :: rest => rest.span isDigit
  | rest => ([], rest)

/-- A double without its sign, written in digits. -/
def magnitude? (negative : Bool) (cs : List Char) : Option Float := do
  let (whole, rest) := cs.span isDigit
  let (fraction, rest) := splitFraction rest
  if whole.isEmpty && fraction.isEmpty then none
  let power ← power? rest
  return Binary.ofDecimal negative (digitsValue 0 (whole ++ fraction))
    (power - (fraction.length : Int))

/-- The double that a text writes. -/
def realNumber? (s : String) : Option Float :=
  let cs := withoutBlanks s.toList
  if !joinsDigits false cs then none
  else
    let (negative, body) := splitSign (cs.filter (· != '_'))
    let word := String.ofList (body.map Char.toLower)
    if word = "nan" then some (0.0 / 0.0)
    else if word = "inf" || word = "infinity" then
      some (if negative then -1.0 / 0.0 else 1.0 / 0.0)
    else magnitude? negative body

end CodeMetrics.Text
