/-!
# `CodeMetrics.Text.Blank`: blank characters

The characters that separate words: the spaces and line ends of Unicode, and the four
ASCII separators. A zero-width space is not among them, nor is a byte order mark.
-/

set_option autoImplicit false

namespace CodeMetrics.Text

/-- The blank characters, as ranges of code points with both ends included. -/
def blankRanges : List (Nat × Nat) :=
  [(0x9, 0xd), (0x1c, 0x20), (0x85, 0x85), (0xa0, 0xa0), (0x1680, 0x1680),
   (0x2000, 0x200a), (0x2028, 0x2029), (0x202f, 0x202f), (0x205f, 0x205f),
   (0x3000, 0x3000)]

/-- Whether a code point lies in one of the ranges. -/
def inRanges (ranges : List (Nat × Nat)) (code : Nat) : Bool :=
  ranges.any fun range => range.1 ≤ code && code ≤ range.2

/-- Whether a character is blank. -/
def isBlank (c : Char) : Bool :=
  inRanges blankRanges c.toNat

/-- Whether a text has no character but blanks. The empty text has none at all. -/
def isBlankText (s : String) : Bool :=
  s.toList.all isBlank

/-- The text without the blanks at its two ends. -/
def strip (s : String) : String :=
  let front := s.toList.dropWhile isBlank
  String.ofList (front.reverse.dropWhile isBlank).reverse

end CodeMetrics.Text
