import CodeMetrics.Decimal.Text
import CodeMetrics.Proofs.Decimal.Shortest
import Mathlib.Data.List.TakeWhile

/-!
# `CodeMetrics.Proofs.Decimal.Text`: numbers can be told apart by their texts

A decimal text stands for a number, however it is written (`textValue`). The text of a double
stands for its shortest decimal (`textValue_written`), and different doubles have shortest
decimals of different values, so the text says which double it is (`floatText_injective`). The text
of a whole number has neither a point nor an exponent (`intText_ne_floatText`).
-/

set_option autoImplicit false

namespace CodeMetrics.Decimal

/-! ### Digits -/

/-- Digits are none of the other characters in a number. -/
theorem ne_of_isDigit {c : Char} (h : c.isDigit) : c ≠ '.' ∧ c ≠ 'e' ∧ c ≠ '-' ∧ c ≠ '+' := by
  refine ⟨?_, ?_, ?_, ?_⟩
  all_goals
    rintro rfl
    exact absurd h (by decide)

theorem isDigit_toDigits {n : Nat} {c : Char} (h : c ∈ Nat.toDigits 10 n) : c.isDigit :=
  Nat.isDigit_of_mem_toDigits (by decide) (by decide) h

theorem isDigit_zeros {count : Nat} {c : Char} (h : c ∈ zeros count) : c.isDigit := by
  rw [List.eq_of_mem_replicate h]
  decide

/-- The number that digits stand for. -/
abbrev ofDigits (digits : List Char) : Nat :=
  Nat.ofDigitChars 10 digits 0

theorem ofDigits_append (front back : List Char) :
    ofDigits (front ++ back) = 10 ^ back.length * ofDigits front + ofDigits back := by
  rw [ofDigits, Nat.ofDigitChars_append, Nat.ofDigitChars_eq_ofDigitChars_zero]

theorem ofDigits_zeros (count : Nat) : ofDigits (zeros count) = 0 := by
  rw [ofDigits, zeros, Nat.ofDigitChars_replicate_zero, Nat.mul_zero]

theorem ofDigits_toDigits (n : Nat) : ofDigits (Nat.toDigits 10 n) = n :=
  Nat.ofDigitChars_ten_toDigits

/-! ### The number that a text stands for -/

/-- The characters before the first `separator`, and those after it. -/
def splitAt (separator : Char) (text : List Char) : List Char × List Char :=
  (text.takeWhile (· != separator), (text.dropWhile (· != separator)).drop 1)

theorem splitAt_append {separator : Char} {front : List Char} (h : separator ∉ front)
    (back : List Char) : splitAt separator (front ++ separator :: back) = (front, back) := by
  have hfront : ∀ c ∈ front, (c != separator) = true := by
    intro c hc
    rw [bne_iff_ne]
    rintro rfl
    exact h hc
  rw [splitAt, List.takeWhile_append_of_pos hfront, List.dropWhile_append_of_pos hfront]
  simp

theorem splitAt_of_notMem {separator : Char} {text : List Char} (h : separator ∉ text) :
    splitAt separator text = (text, []) := by
  have htext : ∀ c ∈ text, (c != separator) = true := by
    intro c hc
    rw [bne_iff_ne]
    rintro rfl
    exact h hc
  rw [splitAt, List.takeWhile_eq_self_iff.mpr htext, List.dropWhile_eq_nil_iff.mpr htext]
  rfl

/-- The number that digits with a point stand for. -/
def pointValue (text : List Char) : ℚ :=
  let (whole, fraction) := splitAt '.' text
  ofDigits (whole ++ fraction) * 10 ^ (-(fraction.length : ℤ))

/-- The number that an exponent with its sign stands for. -/
def powerOf : List Char → ℤ
  | '-' :: digits => -ofDigits digits
  | _ :: digits => ofDigits digits
  | [] => 0

/-- The number that a decimal text without a sign stands for. -/
def textValue (text : List Char) : ℚ :=
  let (mantissa, power) := splitAt 'e' text
  pointValue mantissa * 10 ^ powerOf power

theorem pointValue_append {whole fraction : List Char} (h : '.' ∉ whole) :
    pointValue (whole ++ '.' :: fraction) =
      ofDigits (whole ++ fraction) * 10 ^ (-(fraction.length : ℤ)) := by
  rw [pointValue, splitAt_append h]

theorem textValue_of_notMem {text : List Char} (h : 'e' ∉ text) :
    textValue text = pointValue text := by
  rw [textValue, splitAt_of_notMem h]
  show pointValue text * 10 ^ (0 : ℤ) = _
  rw [zpow_zero, mul_one]

/-- Digits with a point behind the first one. -/
def pointed : List Char → List Char
  | first :: second :: rest => first :: '.' :: second :: rest
  | short => short

/-- A power with its sign. -/
def signedPower (width : Nat) (power : Int) : List Char :=
  let places := Nat.toDigits 10 power.natAbs
  (if power < 0 then '-' else '+') :: (zeros (width - places.length) ++ places)

theorem scientific_eq (width : Nat) (digits : List Char) (power : Int) :
    scientific width digits power = pointed digits ++ 'e' :: signedPower width power := by
  unfold scientific
  dsimp only
  rw [List.append_assoc, List.append_assoc]
  rfl

theorem powerOf_signedPower (width : Nat) (power : Int) :
    powerOf (signedPower width power) = power := by
  unfold signedPower
  dsimp only
  have hplaces : ofDigits (zeros (width - (Nat.toDigits 10 power.natAbs).length) ++
      Nat.toDigits 10 power.natAbs) = power.natAbs := by
    rw [ofDigits_append, ofDigits_zeros, ofDigits_toDigits, Nat.mul_zero, Nat.zero_add]
  split
  · rw [powerOf, hplaces]
    omega
  · show ((ofDigits _ : Nat) : ℤ) = _
    rw [hplaces]
    omega

section

variable {digits : List Char} (hdigits : ∀ c ∈ digits, c.isDigit)

include hdigits

/-- A number with a point stands for its digits, moved to where the point is. -/
theorem pointValue_positional (point : Int) :
    pointValue (positional digits point) =
      ofDigits digits * 10 ^ (point - (digits.length : ℤ)) := by
  have hpoint : ∀ {cs : List Char}, (∀ c ∈ cs, c.isDigit) → '.' ∉ cs := fun h hmem =>
    (ne_of_isDigit (h _ hmem)).1 rfl
  unfold positional
  -- The point stands before all digits, behind all of them, or between two.
  split
  · rename_i hsmall
    rw [List.append_assoc]
    show pointValue (['0'] ++ '.' :: (zeros (-point).toNat ++ digits)) = _
    rw [pointValue_append (by decide), ofDigits_append, ofDigits_append, ofDigits_zeros]
    have hpower : -((zeros (-point).toNat ++ digits).length : ℤ) = point - digits.length := by
      rw [List.length_append, zeros, List.length_replicate]
      omega
    rw [hpower]
    simp [ofDigits, Nat.ofDigitChars_cons]
  · rename_i hlarge
    dsimp only
    split
    · rename_i hlong
      have hwhole : '.' ∉ digits ++ zeros (point.toNat - digits.length) := by
        refine hpoint fun c hc => ?_
        rcases List.mem_append.mp hc with hc | hc
        · exact hdigits c hc
        · exact isDigit_zeros hc
      have hpower : (10 : ℚ) ^ (point - (digits.length : ℤ)) =
          10 ^ (point.toNat - digits.length) := by
        rw [← zpow_natCast]
        congr 1
        omega
      rw [pointValue_append hwhole, ofDigits_append, ofDigits_append, ofDigits_zeros, hpower]
      simp [ofDigits, Nat.ofDigitChars_cons, zeros]
      ring
    · rename_i hshort
      have hwhole : '.' ∉ digits.take point.toNat :=
        hpoint fun c hc => hdigits c (List.mem_of_mem_take hc)
      rw [List.append_assoc]
      show pointValue (digits.take point.toNat ++ '.' :: digits.drop point.toNat) = _
      rw [pointValue_append hwhole, List.take_append_drop, List.length_drop]
      congr 2
      omega

/-- A number with a point has no exponent. -/
theorem notMem_positional (point : Int) : 'e' ∉ positional digits point := by
  have hplain : ∀ {cs : List Char}, (∀ c ∈ cs, c.isDigit) → 'e' ∉ cs := fun h hmem =>
    (ne_of_isDigit (h _ hmem)).2.1 rfl
  have hzeros : ∀ count, 'e' ∉ zeros count := fun count => hplain fun c hc => isDigit_zeros hc
  have htake : 'e' ∉ digits.take point.toNat := fun h => hplain hdigits (List.mem_of_mem_take h)
  have hdrop : 'e' ∉ digits.drop point.toNat := fun h => hplain hdigits (List.mem_of_mem_drop h)
  unfold positional
  dsimp only
  split_ifs
  all_goals simp [hzeros, hplain hdigits, htake, hdrop]

/-- A point behind the first digit divides by the power of the first digit. -/
theorem pointValue_pointed (hne : digits ≠ []) :
    pointValue (pointed digits) = ofDigits digits * 10 ^ (1 - (digits.length : ℤ)) := by
  cases digits with
  | nil => exact absurd rfl hne
  | cons first tail =>
    have hfirst : '.' ∉ [first] := by
      simpa using (ne_of_isDigit (hdigits first List.mem_cons_self)).1.symm
    cases tail with
    | nil =>
      show pointValue [first] = _
      rw [pointValue, splitAt_of_notMem hfirst]
      simp
    | cons second rest =>
      show pointValue ([first] ++ '.' :: second :: rest) = _
      have hpower : -((second :: rest).length : ℤ) = 1 - (first :: second :: rest).length := by
        simp only [List.length_cons]
        omega
      rw [pointValue_append hfirst, hpower]
      rfl

theorem notMem_pointed : 'e' ∉ pointed digits := by
  intro hmem
  have hplain : 'e' ∉ digits := fun h => (ne_of_isDigit (hdigits 'e' h)).2.1 rfl
  unfold pointed at hmem
  split at hmem
  · simp_all
  · exact hplain hmem

/-- A number with an exponent stands for its digits, the first of which has the power given. -/
theorem textValue_scientific (hne : digits ≠ []) (width : Nat) (power : Int) :
    textValue (scientific width digits power) =
      ofDigits digits * 10 ^ (power + 1 - (digits.length : ℤ)) := by
  rw [scientific_eq, textValue, splitAt_append (notMem_pointed hdigits)]
  show pointValue (pointed digits) * 10 ^ powerOf (signedPower width power) = _
  rw [pointValue_pointed hdigits hne, powerOf_signedPower, mul_assoc, ← zpow_add₀ (by norm_num)]
  congr 2
  omega

end

/-- A text stands for the decimal it was made of. -/
theorem textValue_written (style : FloatStyle) (d : Decimal) :
    textValue (written style d) = d.value := by
  have hdigits : ∀ c ∈ Nat.toDigits 10 d.digits, c.isDigit := fun c hc => isDigit_toDigits hc
  unfold written
  dsimp only
  split
  · rw [textValue_of_notMem (notMem_positional hdigits _), pointValue_positional hdigits,
      ofDigits_toDigits, value]
    congr 2
    omega
  · rw [textValue_scientific hdigits Nat.toDigits_ne_nil, ofDigits_toDigits, value]
    congr 2
    omega

/-! ### The characters of a text -/

/-- Whether a character can stand in a number. -/
def isNumeral (c : Char) : Bool :=
  c.isDigit || ['.', 'e', '-', '+'].contains c

theorem isNumeral_of_isDigit {c : Char} (h : c.isDigit) : isNumeral c := by
  rw [isNumeral, h, Bool.true_or]

theorem isNumeral_zeros {count : Nat} {c : Char} (h : c ∈ zeros count) : isNumeral c :=
  isNumeral_of_isDigit (isDigit_zeros h)

theorem isNumeral_toDigits {n : Nat} {c : Char} (h : c ∈ Nat.toDigits 10 n) : isNumeral c :=
  isNumeral_of_isDigit (isDigit_toDigits h)

/-- Nothing but numerals stands in a decimal. -/
theorem isNumeral_written {style : FloatStyle} {d : Decimal} {c : Char}
    (h : c ∈ written style d) : isNumeral c := by
  have hmarks : isNumeral '.' ∧ isNumeral 'e' ∧ isNumeral '-' ∧ isNumeral '+' ∧ isNumeral '0' := by
    decide
  obtain ⟨hpoint, hpower, hminus, hplus, hzero⟩ := hmarks
  unfold written at h
  dsimp only at h
  generalize hdigits : Nat.toDigits 10 d.digits = digits at h
  have hdigit : ∀ {c : Char}, c ∈ digits → isNumeral c := by
    intro c hc
    rw [← hdigits] at hc
    exact isNumeral_toDigits hc
  have hpointed : ∀ {c : Char}, c ∈ pointed digits → isNumeral c := by
    intro c hc
    unfold pointed at hc
    split at hc
    · rcases List.mem_cons.mp hc with rfl | hc
      · exact hdigit (by simp)
      · rcases List.mem_cons.mp hc with rfl | hc
        · exact hpoint
        · exact hdigit (List.mem_cons_of_mem _ hc)
    · exact hdigit hc
  -- Positional decimals by where the point falls, scientific ones part by part.
  split at h
  · unfold positional at h
    dsimp only at h
    split_ifs at h
    all_goals simp only [List.mem_append, List.mem_cons, List.not_mem_nil, or_false] at h
    · rcases h with ((rfl | rfl) | h) | h
      · exact hzero
      · exact hpoint
      · exact isNumeral_zeros h
      · exact hdigit h
    · rcases h with (h | h) | rfl | rfl
      · exact hdigit h
      · exact isNumeral_zeros h
      · exact hpoint
      · exact hzero
    · rcases h with (h | rfl) | h
      · exact hdigit (List.mem_of_mem_take h)
      · exact hpoint
      · exact hdigit (List.mem_of_mem_drop h)
  · rw [scientific_eq, signedPower] at h
    simp only [List.mem_append, List.mem_cons] at h
    rcases h with h | rfl | h | h | h
    · exact hpointed h
    · exact hpower
    · rw [h]
      split
      · exact hminus
      · exact hplus
    · exact isNumeral_zeros h
    · exact isNumeral_toDigits h

/-- A decimal has a point or an exponent. -/
theorem mark_mem_written (style : FloatStyle) (d : Decimal) :
    '.' ∈ written style d ∨ 'e' ∈ written style d := by
  unfold written
  dsimp only
  split
  · left
    unfold positional
    dsimp only
    split_ifs
    all_goals simp
  · right
    rw [scientific_eq]
    simp

/-- A text that begins with a digit. -/
def StartsWithDigit (text : List Char) : Prop :=
  ∃ c rest, text = c :: rest ∧ c.isDigit

theorem startsWithDigit_toDigits (n : Nat) : StartsWithDigit (Nat.toDigits 10 n) := by
  cases h : Nat.toDigits 10 n with
  | nil => exact absurd h Nat.toDigits_ne_nil
  | cons c rest =>
    have hc : c ∈ Nat.toDigits 10 n := by
      rw [h]
      exact List.mem_cons_self
    exact ⟨c, rest, rfl, isDigit_toDigits hc⟩

theorem startsWithDigit_written (style : FloatStyle) (d : Decimal) :
    StartsWithDigit (written style d) := by
  unfold written
  dsimp only
  obtain ⟨c, rest, hdigits, hc⟩ := startsWithDigit_toDigits d.digits
  rw [hdigits]
  split
  · unfold positional
    dsimp only
    split_ifs with hsmall
    · exact ⟨'0', _, rfl, by decide⟩
    · exact ⟨c, _, rfl, hc⟩
    -- The point is behind the first digit at least, so the digits before it are not empty.
    · obtain ⟨n, hn⟩ : ∃ n, ((c :: rest).length + d.exponent - 1 + 1 : ℤ).toNat = n + 1 :=
        Nat.exists_eq_succ_of_ne_zero (by omega)
      rw [hn]
      exact ⟨c, _, rfl, hc⟩
  · rw [scientific_eq]
    unfold pointed
    split
    · rename_i heq
      obtain ⟨rfl, -⟩ := List.cons.inj heq
      exact ⟨c, _, rfl, hc⟩
    · exact ⟨c, _, rfl, hc⟩

/-! ### Numbers with a sign -/

/-- A text with a sign before it if the number is negative. -/
def signed (negative : Bool) (text : List Char) : List Char :=
  if negative then '-' :: text else text

/-- The sign and the text can be told apart. -/
theorem signed_inj {s s' : Bool} {t t' : List Char} (ht : StartsWithDigit t)
    (ht' : StartsWithDigit t') (h : signed s t = signed s' t') : s = s' ∧ t = t' := by
  obtain ⟨c, rest, rfl, hc⟩ := ht
  obtain ⟨c', rest', rfl, hc'⟩ := ht'
  have hminus := (ne_of_isDigit hc).2.2.1
  have hminus' := (ne_of_isDigit hc').2.2.1
  cases s <;> cases s'
  · exact ⟨rfl, h⟩
  · exact absurd (List.cons.inj h).1 hminus
  · exact absurd (List.cons.inj h).1.symm hminus'
  · exact ⟨rfl, (List.cons.inj h).2⟩

theorem toList_intText (n : Int) :
    (intText n).toList = signed (n < 0) (Nat.toDigits 10 n.natAbs) := by
  unfold intText natText signed
  split
  · rename_i h
    rw [if_pos (by simpa using h)]
    simp
  · rename_i h
    rw [String.toList_ofList, if_neg (by simpa using h)]

theorem toList_floatText (style : FloatStyle) (x : Float) :
    (floatText style x).toList =
      signed (Binary.ofFloat x).negative (written style (shortest (Binary.ofFloat x))) := by
  rw [floatText, String.toList_ofList]
  rfl

/-- Whole numbers have different texts. -/
theorem intText_injective {m n : Int} (h : intText m = intText n) : m = n := by
  have htext := congrArg String.toList h
  rw [toList_intText, toList_intText] at htext
  obtain ⟨hsign, hdigits⟩ :=
    signed_inj (startsWithDigit_toDigits _) (startsWithDigit_toDigits _) htext
  have habs := congrArg ofDigits hdigits
  rw [ofDigits_toDigits, ofDigits_toDigits] at habs
  rw [decide_eq_decide] at hsign
  omega

/-- Doubles have different texts. -/
theorem floatText_injective {style : FloatStyle} {x y : Float}
    (h : floatText style x = floatText style y) : x = y := by
  have htext := congrArg String.toList h
  rw [toList_floatText, toList_floatText] at htext
  obtain ⟨hsign, hwritten⟩ :=
    signed_inj (startsWithDigit_written _ _) (startsWithDigit_written _ _) htext
  have hvalue := congrArg textValue hwritten
  rw [textValue_written, textValue_written] at hvalue
  -- The texts give the values back, and no two doubles share a shortest decimal.
  obtain ⟨hmantissa, hexponent⟩ := eq_of_shortest (Binary.normal_ofFloat x)
    (Binary.normal_ofFloat y) hvalue
  apply Binary.ofFloat_injective
  generalize Binary.ofFloat x = b at *
  generalize Binary.ofFloat y = c at *
  obtain ⟨negative, mantissa, exponent⟩ := b
  obtain ⟨negative', mantissa', exponent'⟩ := c
  cases hsign
  cases hmantissa
  cases hexponent
  rfl

/-- No double is written as a whole number. -/
theorem intText_ne_floatText (n : Int) (style : FloatStyle) (x : Float) :
    intText n ≠ floatText style x := by
  intro h
  have htext := congrArg String.toList h
  rw [toList_intText, toList_floatText] at htext
  obtain ⟨-, hdigits⟩ :=
    signed_inj (startsWithDigit_toDigits _) (startsWithDigit_written _ _) htext
  rcases mark_mem_written style (shortest (Binary.ofFloat x)) with hmem | hmem
  · rw [← hdigits] at hmem
    exact (ne_of_isDigit (isDigit_toDigits hmem)).1 rfl
  · rw [← hdigits] at hmem
    exact (ne_of_isDigit (isDigit_toDigits hmem)).2.1 rfl

end CodeMetrics.Decimal
