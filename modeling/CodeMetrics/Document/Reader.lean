import CodeMetrics.Document
import CodeMetrics.Decimal.Binary

/-!
# `CodeMetrics.Document.Reader`: documents from text

Reads JSON text. Fields keep the order of the text, and a key that is given twice keeps
its first place and its last value. A number without point and exponent is a whole number
of any size, every other number is the closest double. `Document.ofText?` gives nothing
for a text that is not JSON.

Each step consumes a character, so the length of the text bounds the number of steps.
-/

set_option autoImplicit false

namespace CodeMetrics.Document.Reader

/-- Drops leading blanks. -/
def skipBlanks (cs : List Char) : List Char :=
  cs.dropWhile fun c => c == ' ' || c == '\t' || c == '\n' || c == '\r'

/-- The value of a hexadecimal digit. -/
def hexValue? (c : Char) : Option Nat :=
  let n := c.toNat
  if 0x30 ≤ n ∧ n ≤ 0x39 then some (n - 0x30)
  else if 0x61 ≤ n ∧ n ≤ 0x66 then some (n - 0x61 + 10)
  else if 0x41 ≤ n ∧ n ≤ 0x46 then some (n - 0x41 + 10)
  else none

/-- Four hexadecimal digits as one code unit. -/
def unit? : List Char → Option (Nat × List Char)
  | a :: b :: c :: d :: rest => do
    let high := 16 * (← hexValue? a) + (← hexValue? b)
    let low := 16 * (← hexValue? c) + (← hexValue? d)
    return (256 * high + low, rest)
  | _ => none

/-- The character of one code unit, or of two if the first is a high surrogate. -/
def unicode? (cs : List Char) : Option (Char × List Char) := do
  let (unit, rest) ← unit? cs
  if 0xd800 ≤ unit ∧ unit < 0xdc00 then
    match rest with
    | '\\' :: 'u' :: tail =>
      let (low, rest) ← unit? tail
      return (Char.ofNat (0x10000 + (unit - 0xd800) * 0x400 + (low - 0xdc00)), rest)
    | _ => none
  else return (Char.ofNat unit, rest)

/-- The character that an escape stands for, read after the backslash. -/
def escape? : List Char → Option (Char × List Char)
  | 'n' :: rest => some ('\n', rest)
  | 't' :: rest => some ('\t', rest)
  | 'r' :: rest => some ('\r', rest)
  | 'b' :: rest => some (Char.ofNat 8, rest)
  | 'f' :: rest => some (Char.ofNat 12, rest)
  | 'u' :: rest => unicode? rest
  | c :: rest => if c == '\\' || c == '/' || c.toNat == 0x22 then some (c, rest) else none
  | [] => none

/-- The rest of a string after its opening quote. -/
def string? : Nat → List Char → List Char → Option (String × List Char)
  | 0, _, _ => none
  | _, _, [] => none
  | fuel + 1, done, c :: rest =>
    if c.toNat == 0x22 then some (String.ofList done.reverse, rest)
    else if c == '\\' then
      match escape? rest with
      | some (c, rest) => string? fuel (c :: done) rest
      | none => none
    else string? fuel (c :: done) rest

/-- Reads digits, most significant first. -/
def digits? (cs : List Char) : Option Nat :=
  if cs.isEmpty || !cs.all Char.isDigit then none
  else some (cs.foldl (fun n c => 10 * n + (c.toNat - 0x30)) 0)

/-- Digits with an optional sign. -/
def signed? : List Char → Option Int
  | '-' :: cs => (digits? cs).map fun n => -(n : Int)
  | '+' :: cs => (digits? cs).map fun n => (n : Int)
  | cs => (digits? cs).map fun n => (n : Int)

/-- A number in scientific form: digits, digits after the point, power of ten. -/
def scientific? (negative : Bool) (whole fraction : List Char) (power : Int) : Option Document := do
  let mantissa ← digits? (whole ++ fraction)
  return .float (Binary.ofDecimal negative mantissa (power - (fraction.length : Int)))

/-- The number that a run of number characters stands for. -/
def number? (token : List Char) : Option Document :=
  let isMark := fun (c : Char) => c == '.' || c == 'e' || c == 'E'
  if token.any isMark then
    let negative := token.head? == some '-'
    let magnitude := if negative then token.drop 1 else token
    let whole := magnitude.takeWhile fun c => !isMark c
    match magnitude.dropWhile fun c => !isMark c with
    | '.' :: rest =>
      let fraction := rest.takeWhile fun c => !isMark c
      match rest.dropWhile fun c => !isMark c with
      | [] => scientific? negative whole fraction 0
      | _ :: power => do scientific? negative whole fraction (← signed? power)
    | _ :: power => do scientific? negative whole [] (← signed? power)
    | [] => none
  else (signed? token).map .int

/-- Whether a character can stand in a number. -/
def inNumber (c : Char) : Bool :=
  c.isDigit || c == '-' || c == '+' || c == '.' || c == 'e' || c == 'E'

mutual

/-- One value, followed by the rest of the text. -/
def value? : Nat → List Char → Option (Document × List Char)
  | 0, _ => none
  | fuel + 1, cs =>
    match skipBlanks cs with
    | 'n' :: 'u' :: 'l' :: 'l' :: rest => some (.null, rest)
    | 't' :: 'r' :: 'u' :: 'e' :: rest => some (.bool true, rest)
    | 'f' :: 'a' :: 'l' :: 's' :: 'e' :: rest => some (.bool false, rest)
    | '[' :: rest =>
      match skipBlanks rest with
      | ']' :: rest => some (.list [], rest)
      | rest => (items? fuel [] rest).map fun (items, rest) => (.list items, rest)
    | c :: rest =>
      if c.toNat == 0x7b then
        match skipBlanks rest with
        | [] => none
        | d :: tail =>
          if d.toNat == 0x7d then some (.object [], tail)
          else (fields? fuel [] (d :: tail)).map fun (fields, rest) => (.object fields, rest)
      else if c.toNat == 0x22 then
        (string? (fuel + 1) [] rest).map fun (s, rest) => (.string s, rest)
      else (number? ((c :: rest).takeWhile inNumber)).map fun d =>
        (d, (c :: rest).dropWhile inNumber)
    | [] => none

/-- The items of a list up to its closing bracket, put behind those already read. -/
def items? : Nat → List Document → List Char → Option (List Document × List Char)
  | 0, _, _ => none
  | fuel + 1, done, cs =>
    match value? fuel cs with
    | none => none
    | some (d, rest) =>
      match skipBlanks rest with
      | ',' :: rest => items? fuel (d :: done) rest
      | ']' :: rest => some ((d :: done).reverse, rest)
      | _ => none

/-- The fields of an object up to its closing brace, put behind those already read. -/
def fields? : Nat → List (String × Document) → List Char →
    Option (List (String × Document) × List Char)
  | 0, _, _ => none
  | fuel + 1, done, cs =>
    match value? fuel cs with
    | some (.string key, rest) =>
      match skipBlanks rest with
      | ':' :: rest =>
        match value? fuel rest with
        | some (d, rest) =>
          match skipBlanks rest with
          | ',' :: rest => fields? fuel (assign key d done) rest
          | c :: rest =>
            if c.toNat == 0x7d then some (assign key d done, rest) else none
          | [] => none
        | none => none
      | _ => none
    | _ => none

end

end Reader

/-- The document that a JSON text stands for. -/
def ofText? (text : String) : Option Document :=
  let cs := text.toList
  match Reader.value? (cs.length + 1) cs with
  | some (d, rest) => if (Reader.skipBlanks rest).isEmpty then some d else none
  | none => none

end CodeMetrics.Document
