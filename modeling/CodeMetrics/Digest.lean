import CodeMetrics.Decimal.Text
import CodeMetrics.Text.Quoted

/-!
# `CodeMetrics.Digest`: the XXH64 digest of a text

XXH64 with seed 0 over the UTF-8 bytes of a text. Stripes of 32 bytes feed four lanes of
64 bits, which are merged when the stripes run out. What is left is taken in words of
eight bytes, then one of four, then single bytes. All arithmetic is modulo `2 ^ 64`.
-/

set_option autoImplicit false

namespace CodeMetrics.Digest

/-- The five odd constants of the algorithm. -/
def prime1 : UInt64 := 0x9E3779B185EBCA87
@[inherit_doc prime1] def prime2 : UInt64 := 0xC2B2AE3D27D4EB4F
@[inherit_doc prime1] def prime3 : UInt64 := 0x165667B19E3779F9
@[inherit_doc prime1] def prime4 : UInt64 := 0x85EBCA77C2B2AE63
@[inherit_doc prime1] def prime5 : UInt64 := 0x27D4EB2F165667C5

/-- Rotates the bits of a word to the left, by less than its width. -/
def rotate (x : UInt64) (count : UInt64) : UInt64 :=
  (x <<< count) ||| (x >>> (64 - count))

/-- The bytes as one word, least significant first. -/
def word (bytes : List UInt8) : UInt64 :=
  bytes.foldr (fun byte high => high * 256 + byte.toUInt64) 0

/-- Mixes a word into a lane. -/
def mix (lane input : UInt64) : UInt64 :=
  rotate (lane + input * prime2) 31 * prime1

/-- The four lanes. -/
structure Lanes where
  a : UInt64
  b : UInt64
  c : UInt64
  d : UInt64

/-- The lanes before the first stripe. -/
def Lanes.start : Lanes :=
  ⟨prime1 + prime2, prime2, 0, 0 - prime1⟩

/-- Takes one stripe of 32 bytes. -/
def Lanes.absorb (l : Lanes) (stripe : List UInt8) : Lanes :=
  { a := mix l.a (word (stripe.take 8))
    b := mix l.b (word ((stripe.drop 8).take 8))
    c := mix l.c (word ((stripe.drop 16).take 8))
    d := mix l.d (word ((stripe.drop 24).take 8)) }

/-- Takes `count` stripes and gives the lanes and the bytes that are left. -/
def Lanes.stripes : Nat → Lanes → List UInt8 → Lanes × List UInt8
  | 0, l, bytes => (l, bytes)
  | count + 1, l, bytes => stripes count (l.absorb (bytes.take 32)) (bytes.drop 32)

/-- Folds one lane into the digest. -/
def fold (h lane : UInt64) : UInt64 :=
  (h ^^^ mix 0 lane) * prime1 + prime4

/-- The four lanes as one word. -/
def Lanes.merge (l : Lanes) : UInt64 :=
  let h := rotate l.a 1 + rotate l.b 7 + rotate l.c 12 + rotate l.d 18
  fold (fold (fold (fold h l.a) l.b) l.c) l.d

/-- Takes `count` words of eight bytes. -/
def words : Nat → UInt64 → List UInt8 → UInt64 × List UInt8
  | 0, h, bytes => (h, bytes)
  | count + 1, h, bytes =>
    words count (rotate (h ^^^ mix 0 (word (bytes.take 8))) 27 * prime1 + prime4) (bytes.drop 8)

/-- Takes a word of four bytes if there is one. -/
def halfWord (h : UInt64) (bytes : List UInt8) : UInt64 × List UInt8 :=
  if bytes.length < 4 then (h, bytes)
  else (rotate (h ^^^ word (bytes.take 4) * prime1) 23 * prime2 + prime3, bytes.drop 4)

/-- Takes a single byte. -/
def single (h : UInt64) (byte : UInt8) : UInt64 :=
  rotate (h ^^^ byte.toUInt64 * prime5) 11 * prime1

/-- Spreads the bits of the digest at the end. -/
def avalanche (h : UInt64) : UInt64 :=
  let h := (h ^^^ h >>> 33) * prime2
  let h := (h ^^^ h >>> 29) * prime3
  h ^^^ h >>> 32

/-- The digest of a sequence of bytes. -/
def ofBytes (bytes : List UInt8) : UInt64 :=
  let length := bytes.length
  let (start, rest) :=
    if length < 32 then (prime5, bytes)
    else
      let (lanes, rest) := Lanes.start.stripes (length / 32) bytes
      (lanes.merge, rest)
  let (h, rest) := words (rest.length / 8) (start + UInt64.ofNat length) rest
  let (h, rest) := halfWord h rest
  avalanche (rest.foldl single h)

/-- The digest of a text, as sixteen hexadecimal digits. -/
def ofText (s : String) : String :=
  String.ofList (Text.hexDigits 16 (ofBytes s.toUTF8.data.toList).toNat)

end CodeMetrics.Digest
