import CodeMetrics.Text.Quoted
import CodeMetrics.Text.Printable

/-!
# `CodeMetrics.Text.Shown`: texts as parts of a shown value

A text inside a shown list or object stands between single quotes, or between double
quotes if it holds a single quote and no double quote. Characters that cannot be shown
are escaped with as many hexadecimal digits as they need: two, four or eight.
-/

set_option autoImplicit false

namespace CodeMetrics.Text

/-- The single quote. -/
def singleQuote : Char := Char.ofNat 0x27

/-- The double quote. -/
def doubleQuote : Char := Char.ofNat 0x22

/-- The quote that a shown text stands between. -/
def shownQuote (s : String) : Char :=
  let chars := s.toList
  if chars.contains singleQuote && !chars.contains doubleQuote then doubleQuote else singleQuote

/-- The hexadecimal escape of a character that cannot be shown. -/
def shownEscape (code : Nat) : List Char :=
  if code < 0x100 then ['\\', 'x'] ++ hexDigits 2 code
  else if code < 0x10000 then ['\\', 'u'] ++ hexDigits 4 code
  else ['\\', 'U'] ++ hexDigits 8 code

/-- A character of a text that stands between two `quote` characters. -/
def shownChar (quote : Char) (c : Char) : List Char :=
  if c = quote ∨ c = '\\' then ['\\', c]
  else if c = '\n' then ['\\', 'n']
  else if c = '\r' then ['\\', 'r']
  else if c = '\t' then ['\\', 't']
  else if isPrintable c then [c]
  else shownEscape c.toNat

/-- A text between the quotes that suit it. -/
def shown (s : String) : String :=
  let quote := shownQuote s
  String.ofList (quote :: (s.toList.flatMap (shownChar quote) ++ [quote]))

end CodeMetrics.Text
