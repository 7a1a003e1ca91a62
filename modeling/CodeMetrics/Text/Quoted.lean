/-!
# `CodeMetrics.Text.Quoted`: texts between double quotes

A quoted text stands between double quotes. Quotes, backslashes and control characters
are escaped inside it. There are two forms: one keeps every other character as it is,
the other writes all characters that ASCII cannot show as UTF-16 code units.
-/

set_option autoImplicit false

namespace CodeMetrics.Text

/-- A hexadecimal digit in lower case. -/
def hexDigit (n : Nat) : Char :=
  if n < 10 then Char.ofNat (0x30 + n) else Char.ofNat (0x61 + (n - 10))

/-- The lowest `width` hexadecimal digits of `n`, most significant first. -/
def hexDigits : Nat → Nat → List Char
  | 0, _ => []
  | width + 1, n => hexDigits width (n / 16) ++ [hexDigit (n % 16)]

/-- A four-digit escape of one code unit. -/
def unitEscape (unit : Nat) : List Char :=
  ['\\', 'u'] ++ hexDigits 4 unit

/-- A character inside a quoted text, where `beyond` writes the characters that need no
escape of their own. -/
def escapeWith (beyond : Char → List Char) (c : Char) : List Char :=
  match c.toNat with
  | 0x22 => ['\\', Char.ofNat 0x22]
  | 0x5c => ['\\', '\\']
  | 0x0a => ['\\', 'n']
  | 0x0d => ['\\', 'r']
  | 0x09 => ['\\', 't']
  | 0x08 => ['\\', 'b']
  | 0x0c => ['\\', 'f']
  | code => if code < 0x20 then unitEscape code else beyond c

/-- The UTF-16 code units of a character beyond the first plane. -/
def surrogates (code : Nat) : Nat × Nat :=
  (0xd800 + (code - 0x10000) / 0x400, 0xdc00 + (code - 0x10000) % 0x400)

/-- A character as it is if ASCII can show it, and as escaped code units otherwise. -/
def asciiOnly (c : Char) : List Char :=
  let code := c.toNat
  if code < 0x7f then [c]
  else if code < 0x10000 then unitEscape code
  else unitEscape (surrogates code).1 ++ unitEscape (surrogates code).2

/-- A text between double quotes, its characters written by `escape`. -/
def quoteWith (escape : Char → List Char) (s : String) : String :=
  String.ofList (Char.ofNat 0x22 :: (s.toList.flatMap escape ++ [Char.ofNat 0x22]))

/-- A quoted text that keeps the characters beyond ASCII. -/
def quoted (s : String) : String :=
  quoteWith (escapeWith fun c => [c]) s

/-- A quoted text in ASCII. -/
def quotedAscii (s : String) : String :=
  quoteWith (escapeWith asciiOnly) s

end CodeMetrics.Text
