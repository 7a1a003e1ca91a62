import CodeMetrics.Document
import CodeMetrics.Decimal.Text
import CodeMetrics.Text.Shown

/-!
# `CodeMetrics.Document.Writer`: documents as text

One writer serves every textual form of a document. A `Format` says how words, texts and
doubles are spelled and what separates items. Three forms are used by the analysis:

* `compact` after `sortKeys` is the canonical text, equal for documents that differ only in the
  order of fields;
* `spaced` is the text of a token that is not a string;
* `display` is the text of a value inside a message or an identifier.
-/

set_option autoImplicit false

namespace CodeMetrics

/-- How the parts of a document are spelled. -/
structure Format where
  nullWord : String
  trueWord : String
  falseWord : String
  float : Float → String
  text : String → String
  itemSeparator : String
  keySeparator : String

namespace Document

mutual

/-- The text of a document in the given format. -/
def write (f : Format) : Document → String
  | .null => f.nullWord
  | .bool b => if b then f.trueWord else f.falseWord
  | .int n => Decimal.intText n
  | .float x => f.float x
  | .string s => f.text s
  | .list items => "[" ++ f.itemSeparator.intercalate (writeItems f items) ++ "]"
  | .object fields => "\x7b" ++ f.itemSeparator.intercalate (writeFields f fields) ++ "\x7d"

/-- The texts of the items of a list. -/
def writeItems (f : Format) : List Document → List String
  | [] => []
  | d :: rest => write f d :: writeItems f rest

/-- The texts of the fields of an object, each with its key. -/
def writeFields (f : Format) : List (String × Document) → List String
  | [] => []
  | (key, d) :: rest => (f.text key ++ f.keySeparator ++ write f d) :: writeFields f rest

end

mutual

/-- The same document with the fields of every object in the order of their keys, by code
point. -/
def sortKeys : Document → Document
  | .list items => .list (sortKeysItems items)
  | .object fields =>
    .object ((sortKeysFields fields).mergeSort fun a b => decide (a.1 ≤ b.1))
  | other => other

/-- Sorts the keys inside every item. -/
def sortKeysItems : List Document → List Document
  | [] => []
  | d :: rest => sortKeys d :: sortKeysItems rest

/-- Sorts the keys inside the value of every field, leaving the fields in place. -/
def sortKeysFields : List (String × Document) → List (String × Document)
  | [] => []
  | (key, d) :: rest => (key, sortKeys d) :: sortKeysFields rest

end

/-- Doubles are positional from `10 ^ -4` to below `10 ^ 16`, and an exponent has at least
two digits. -/
def floatStyle : Decimal.FloatStyle := ⟨-4, 16, 2⟩

/-- ASCII text without blanks. -/
def compact : Format :=
  { nullWord := "null"
    trueWord := "true"
    falseWord := "false"
    float := Decimal.floatText floatStyle
    text := Text.quotedAscii
    itemSeparator := ","
    keySeparator := ":" }

/-- ASCII text with a blank after every separator. -/
def spaced : Format :=
  { compact with
    itemSeparator := ", "
    keySeparator := ": " }

/-- Text for a reader: words are capitalised and texts stand between single quotes. -/
def readable : Format :=
  { nullWord := "None"
    trueWord := "True"
    falseWord := "False"
    float := Decimal.floatText floatStyle
    text := Text.shown
    itemSeparator := ", "
    keySeparator := ": " }

/-- The canonical text: compact, with sorted keys. -/
def canonical (d : Document) : String :=
  write compact (sortKeys d)

/-- A value inside a message or an identifier. A text on its own is not quoted. -/
def display : Document → String
  | .string s => s
  | d => write readable d

end Document

end CodeMetrics
