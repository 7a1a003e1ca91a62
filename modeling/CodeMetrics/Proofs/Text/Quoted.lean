import CodeMetrics.Text.Quoted
import Mathlib.Algebra.Group.Nat.Defs

/-!
# `CodeMetrics.Proofs.Text.Quoted`: quoted texts can be told apart

A quoted text says where it ends. Whatever comes behind, the text and the rest can be told from
the characters (`quoteWith_append_inj`). `unescape` reads a character back from the way it
is written. Code units that are halves of a pair belong to no character, so one of them says that
another one follows.

There are two ways to write the characters that need no escape of their own, and all that the proofs
ask of them is that these characters are read back (`ReadBack`).
-/

set_option autoImplicit false

namespace CodeMetrics.Text

/-! ### Hexadecimal digits -/

/-- The value of a hexadecimal digit in lower case. -/
def hexValue (c : Char) : Nat :=
  if c.toNat < 0x3a then c.toNat - 0x30 else c.toNat - 0x61 + 10

theorem hexValue_hexDigit {n : Nat} (h : n < 16) : hexValue (hexDigit n) = n := by
  have hall : ∀ n < 16, hexValue (hexDigit n) = n := by decide
  exact hall n h

/-- The number that hexadecimal digits stand for. -/
def ofHexDigits (digits : List Char) : Nat :=
  digits.foldl (fun n c => 16 * n + hexValue c) 0

/-- Digits stand for the number they were made of, as far as they reach. -/
theorem ofHexDigits_hexDigits (width n : Nat) :
    ofHexDigits (hexDigits width n) = n % 16 ^ width := by
  induction width generalizing n with
  | zero => exact (Nat.mod_one n).symm
  | succ width ih =>
    have hdigit : hexValue (hexDigit (n % 16)) = n % 16 := hexValue_hexDigit (Nat.mod_lt n (by decide))
    rw [hexDigits, ofHexDigits, List.foldl_append, ← ofHexDigits, ih, List.foldl_cons,
      List.foldl_nil, hdigit, Nat.pow_succ, Nat.mul_comm (16 ^ width) 16, Nat.mod_mul]
    omega

/-! ### Characters -/

/-- The code unit that is escaped at the beginning of some characters, and the rest. -/
def readUnit : List Char → Option (Nat × List Char)
  | _ :: _ :: a :: b :: c :: d :: rest => some (ofHexDigits [a, b, c, d], rest)
  | _ => none

theorem readUnit_unitEscape {unit : Nat} (h : unit < 0x10000) (rest : List Char) :
    readUnit (unitEscape unit ++ rest) = some (unit, rest) := by
  have hdigits : ofHexDigits (hexDigits 4 unit) = unit := by
    rw [ofHexDigits_hexDigits]
    exact Nat.mod_eq_of_lt h
  show some (ofHexDigits (hexDigits 4 unit), rest) = _
  rw [hdigits]

/-- The character that an escape with one letter stands for. -/
def letterEscape : Char → Char
  | 'n' => '\n'
  | 'r' => '\r'
  | 't' => '\t'
  | 'b' => Char.ofNat 0x08
  | 'f' => Char.ofNat 0x0c
  | c => c

/-- The character that is written at the beginning of some characters, and the rest. -/
def unescape : List Char → Option (Char × List Char)
  | [] => none
  | '\\' :: 'u' :: rest => do
    let (unit, rest) ← readUnit ('\\' :: 'u' :: rest)
    if 0xd800 ≤ unit ∧ unit < 0xe000 then
      let (low, rest) ← readUnit rest
      return (Char.ofNat (0x10000 + (unit - 0xd800) * 0x400 + (low - 0xdc00)), rest)
    else return (Char.ofNat unit, rest)
  | '\\' :: c :: rest => some (letterEscape c, rest)
  | c :: rest => some (c, rest)

theorem unescape_unitEscape {unit : Nat} (h : unit < 0x10000) (rest : List Char) :
    unescape (unitEscape unit ++ rest) =
      if 0xd800 ≤ unit ∧ unit < 0xe000 then do
        let (low, rest) ← readUnit rest
        return (Char.ofNat (0x10000 + (unit - 0xd800) * 0x400 + (low - 0xdc00)), rest)
      else some (Char.ofNat unit, rest) := by
  show (do
    let (unit, rest) ← readUnit (unitEscape unit ++ rest)
    if 0xd800 ≤ unit ∧ unit < 0xe000 then
      let (low, rest) ← readUnit rest
      return (Char.ofNat (0x10000 + (unit - 0xd800) * 0x400 + (low - 0xdc00)), rest)
    else return (Char.ofNat unit, rest)) = _
  rw [readUnit_unitEscape h]
  rfl

/-- A character is no half of a pair of code units. -/
theorem not_half (c : Char) : ¬(0xd800 ≤ c.toNat ∧ c.toNat < 0xe000) := by
  intro h
  rcases c.valid with hlow | hhigh
  · have : c.toNat < 0xd800 := hlow
    omega
  · have : 0xdfff < c.toNat := hhigh.1
    omega

/-- A character with a code unit of its own is read back from that. -/
theorem unescape_single {c : Char} (h : c.toNat < 0x10000) (rest : List Char) :
    unescape (unitEscape c.toNat ++ rest) = some (c, rest) := by
  rw [unescape_unitEscape h, if_neg (not_half c), Char.ofNat_toNat]

/-- A character with a pair of code units is read back from those. -/
theorem unescape_pair {c : Char} (h : 0x10000 ≤ c.toNat) (rest : List Char) :
    unescape (unitEscape (surrogates c.toNat).1 ++ (unitEscape (surrogates c.toNat).2 ++ rest)) =
      some (c, rest) := by
  have hmax : c.toNat < 0x110000 := by
    rcases c.valid with hlow | hhigh
    · have : c.toNat < 0xd800 := hlow
      omega
    · exact hhigh.2
  have hcode : 0x10000 + (0xd800 + (c.toNat - 0x10000) / 0x400 - 0xd800) * 0x400 +
      (0xdc00 + (c.toNat - 0x10000) % 0x400 - 0xdc00) = c.toNat := by
    omega
  dsimp only [surrogates]
  rw [unescape_unitEscape (by omega), if_pos (by omega), readUnit_unitEscape (by omega)]
  show some (Char.ofNat (_ + _), rest) = _
  rw [hcode, Char.ofNat_toNat]

/-- A character that is written as itself is read back, unless it is a backslash. -/
theorem unescape_cons {c : Char} (h : c ≠ '\\') (rest : List Char) :
    unescape (c :: rest) = some (c, rest) := by
  unfold unescape
  split
  all_goals simp_all

/-- Characters that need no escape of their own are read back from the way `beyond` writes them. -/
def ReadBack (beyond : Char → List Char) : Prop :=
  ∀ c, c ≠ '\\' → ∀ rest, unescape (beyond c ++ rest) = some (c, rest)

theorem readBack_self : ReadBack fun c => [c] := by
  intro c hc rest
  exact unescape_cons hc rest

theorem readBack_asciiOnly : ReadBack asciiOnly := by
  intro c hc rest
  unfold asciiOnly
  dsimp only
  split
  · exact unescape_cons hc rest
  · split
    · exact unescape_single (by omega) rest
    · rw [List.append_assoc]
      exact unescape_pair (by omega) rest

section

variable {beyond : Char → List Char}

/-- A character is read back from the way it is written. -/
theorem unescape_escape (h : ReadBack beyond) (c : Char) (rest : List Char) :
    unescape (escapeWith beyond c ++ rest) = some (c, rest) := by
  have hc := Char.ofNat_toNat c
  unfold escapeWith
  split
  case h_8 hquote hback _ _ _ _ _ =>
    split
    · exact unescape_single (by omega) rest
    · have hplain : c ≠ '\\' := fun heq => hback (by rw [heq]; rfl)
      exact h c hplain rest
  all_goals
    rename_i hcode
    rw [hcode] at hc
    rw [← hc]
    rfl

/-- No character is written with a quote at the beginning. -/
theorem escape_ne_quote (h : ReadBack beyond) (c : Char) (rest rest' : List Char) :
    Char.ofNat 0x22 :: rest ≠ escapeWith beyond c ++ rest' := by
  intro heq
  have hread : some (Char.ofNat 0x22, rest) = some (c, rest') := by
    rw [← unescape_escape h c rest', ← heq]
    rfl
  obtain ⟨hc, -⟩ := Prod.mk.inj (Option.some.inj hread)
  rw [← hc] at heq
  exact absurd (List.cons.inj heq).1 (by decide)

/-! ### Texts -/

/-- The characters up to the quote, and the rest, can be told from how they are written. -/
theorem flatMap_escape_inj (h : ReadBack beyond) {cs cs' : List Char} {r r' : List Char}
    (heq : cs.flatMap (escapeWith beyond) ++ Char.ofNat 0x22 :: r =
      cs'.flatMap (escapeWith beyond) ++ Char.ofNat 0x22 :: r') : cs = cs' ∧ r = r' := by
  induction cs generalizing cs' with
  | nil =>
    cases cs' with
    | nil => exact ⟨rfl, (List.cons.inj heq).2⟩
    | cons c' cs' =>
      rw [List.flatMap_cons, List.append_assoc] at heq
      exact absurd heq (escape_ne_quote h c' _ _)
  | cons c cs ih =>
    rw [List.flatMap_cons, List.append_assoc] at heq
    cases cs' with
    | nil => exact absurd heq.symm (escape_ne_quote h c _ _)
    | cons c' cs' =>
      rw [List.flatMap_cons, List.append_assoc] at heq
      -- Reading back one character gives it and what follows, on both sides.
      have hread := congrArg unescape heq
      rw [unescape_escape h, unescape_escape h] at hread
      obtain ⟨hc, hrest⟩ := Prod.mk.inj (Option.some.inj hread)
      obtain ⟨hcs, hr⟩ := ih hrest
      exact ⟨by rw [hc, hcs], hr⟩

/-- A quoted text, and what comes behind it, can be told from the characters. -/
theorem quoteWith_append_inj (h : ReadBack beyond) {s t : String} {r r' : List Char}
    (heq : (quoteWith (escapeWith beyond) s).toList ++ r =
      (quoteWith (escapeWith beyond) t).toList ++ r') : s = t ∧ r = r' := by
  simp only [quoteWith, String.toList_ofList, List.cons_append, List.append_assoc,
    List.nil_append] at heq
  obtain ⟨hcs, hr⟩ := flatMap_escape_inj h (List.cons.inj heq).2
  exact ⟨String.toList_inj.mp hcs, hr⟩

end

theorem quotedAscii_append_inj {s t : String} {r r' : List Char}
    (h : (quotedAscii s).toList ++ r = (quotedAscii t).toList ++ r') : s = t ∧ r = r' :=
  quoteWith_append_inj readBack_asciiOnly h

/-- Different texts are quoted differently. -/
theorem quoted_injective {s t : String} (h : quoted s = quoted t) : s = t := by
  have happend : (quoted s).toList ++ [] = (quoted t).toList ++ [] := by rw [h]
  exact (quoteWith_append_inj readBack_self happend).1

end CodeMetrics.Text
