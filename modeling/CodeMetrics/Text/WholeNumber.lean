import CodeMetrics.Text.Blank
import CodeMetrics.Text.DecimalDigit

/-!
# `CodeMetrics.Text.WholeNumber`: whole numbers written in a text

A text writes a whole number if it has digits, a sign before them or none, and blanks
around both. The digits may be of any script, and single underscores may stand between
them. The four ASCII separators are no blanks here.

A number of more than `maxDigits` digits is refused for its length, even if something else
follows the digits.
-/

set_option autoImplicit false

namespace CodeMetrics.Text

/-- Why a text is not read as a whole number. -/
inductive NumeralError where
  | malformed
  | tooLong (digits : Nat)
  deriving DecidableEq

/-- The greatest number of digits that are read. -/
def maxDigits : Nat := 4300

/-- Whether a character may stand around a number. -/
def isNumberBlank (c : Char) : Bool :=
  isBlank c && !inRanges [(0x1c, 0x1f)] c.toNat

/-- Whether a character is a digit. -/
def isDigit (c : Char) : Bool :=
  (digitValue? c).isSome

/-- Whether every underscore stands between two digits. If `due` is set, a digit has to come
next. -/
def separated (due : Bool) : List Char → Bool
  | [] => !due
  | c :: rest => if c = '_' then !due && separated true rest else separated false rest

/-- The number that some digits stand for, read after a number `n`. -/
def digitsValue (n : Nat) : List Char → Nat
  | [] => n
  | c :: rest => digitsValue (10 * n + (digitValue? c).getD 0) rest

/-- The sign in front of a number, and what follows it. -/
def splitSign : List Char → Bool × List Char
  | '-' :: rest => (true, rest)
  | '+' :: rest => (false, rest)
  | rest => (false, rest)

/-- The whole number that a text writes. -/
def wholeNumber (s : String) : Except NumeralError Int :=
  let (negative, body) := splitSign (s.toList.dropWhile isNumberBlank)
  let (run, rest) := body.span fun c => isDigit c || c = '_'
  let digits := run.filter isDigit
  if !separated true run then .error .malformed
  else if maxDigits < digits.length then .error (.tooLong digits.length)
  else if !rest.all isNumberBlank then .error .malformed
  else
    let n : Int := digitsValue 0 digits
    .ok (if negative then -n else n)

end CodeMetrics.Text
