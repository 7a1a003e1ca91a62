import CodeMetrics.Proofs.Decimal.Magnitude

/-!
# `CodeMetrics.Proofs.Decimal.Nearest`: bounds on the double closest to a ratio

`Binary.nearest` finds the place of the leading binary digit of a ratio, takes fifty-three digits
from there and puts the bits of a double together. A ratio below `2 ^ a` becomes a double below
`2 ^ (a + 1)`, since rounding may reach the power of two (`within_nearest`). A ratio that is not
below `2 ^ -b` becomes a double that is not below it either (`atLeast_nearest`).
-/

set_option autoImplicit false

namespace CodeMetrics.Binary

open Float.Model UnpackedFloat

/-! ### The leading digit -/

section

variable {num den : Nat}

/-- A ratio lies between the power of two of its leading digit and the next one. -/
theorem leadingBit_spec (hnum : 0 < num) (hden : 0 < den) :
    (den : ℚ) * 2 ^ leadingBit num den ≤ num ∧
      (num : ℚ) < den * 2 ^ (leadingBit num den + 1) := by
  have hnumLow : (2 : ℚ) ^ (num.log2 : Int) ≤ num := by
    exact_mod_cast Nat.log2_self_le hnum.ne'
  have hnumHigh : (num : ℚ) < 2 ^ ((num.log2 : Int) + 1) := by
    exact_mod_cast Nat.lt_log2_self (n := num)
  have hdenLow : (2 : ℚ) ^ (den.log2 : Int) ≤ den := by
    exact_mod_cast Nat.log2_self_le hden.ne'
  have hdenHigh : (den : ℚ) < 2 ^ ((den.log2 : Int) + 1) := by
    exact_mod_cast Nat.lt_log2_self (n := den)
  unfold leadingBit
  dsimp only
  -- The difference of the digits is the place of the leading one, or the place above it.
  generalize hguess : (num.log2 : Int) - den.log2 = guess
  have hreached : (if 0 ≤ guess then den * twoTo guess.toNat ≤ num
      else den ≤ num * twoTo (-guess).toNat) ↔ (den : ℚ) * 2 ^ guess ≤ num := by
    split
    case isTrue hsign =>
      rw [zpow_of_nonneg hsign, ← twoTo_eq]
      exact_mod_cast Iff.rfl
    case isFalse hsign =>
      have hpos : (0 : ℚ) < 2 ^ (-guess).toNat := by positivity
      rw [zpow_of_neg hsign, ← div_eq_mul_inv, div_le_iff₀ hpos, ← twoTo_eq]
      exact_mod_cast Iff.rfl
  by_cases h : (den : ℚ) * 2 ^ guess ≤ num
  · rw [if_pos (hreached.mpr h)]
    refine ⟨h, hnumHigh.trans_le ?_⟩
    calc (2 : ℚ) ^ ((num.log2 : Int) + 1) = 2 ^ (den.log2 : Int) * 2 ^ (guess + 1) := by
          rw [← zpow_add₀ two_ne_zero]
          congr 1
          omega
      _ ≤ den * 2 ^ (guess + 1) := by gcongr
  · rw [if_neg (hreached.not.mpr h)]
    refine ⟨?_, by simpa using h⟩
    calc (den : ℚ) * 2 ^ (guess - 1) ≤ 2 ^ ((den.log2 : Int) + 1) * 2 ^ (guess - 1) := by gcongr
      _ = 2 ^ (num.log2 : Int) := by
          rw [← zpow_add₀ two_ne_zero]
          congr 1
          omega
      _ ≤ num := hnumLow

/-- The leading digit of a ratio below a power of two is below that power. -/
theorem leadingBit_lt {a : Int} (hnum : 0 < num) (hden : 0 < den)
    (h : (num : ℚ) < den * 2 ^ a) : leadingBit num den < a := by
  have hlow := (leadingBit_spec hnum hden).1.trans_lt h
  rw [mul_lt_mul_iff_right₀ (by exact_mod_cast hden)] at hlow
  exact (zpow_lt_zpow_iff_right₀ one_lt_two).mp hlow

/-- The leading digit of a ratio that is not below a power of two is not below it either. -/
theorem le_leadingBit {a : Int} (hnum : 0 < num) (hden : 0 < den)
    (h : (den : ℚ) * 2 ^ a ≤ num) : a ≤ leadingBit num den := by
  have hhigh := h.trans_lt (leadingBit_spec hnum hden).2
  rw [mul_lt_mul_iff_right₀ (by exact_mod_cast hden)] at hhigh
  have := (zpow_lt_zpow_iff_right₀ one_lt_two).mp hhigh
  omega

/-! ### The digits after it -/

/-- Rounding does not pass a whole number. -/
theorem roundRatio_le {c : Nat} (hden : 0 < den) (h : num < c * den) : roundRatio num den ≤ c := by
  have hdiv := (Nat.div_lt_iff_lt_mul hden).mpr h
  unfold roundRatio
  dsimp only
  split_ifs <;> omega

theorem le_roundRatio {c : Nat} (hden : 0 < den) (h : c * den ≤ num) : c ≤ roundRatio num den := by
  have hdiv := (Nat.le_div_iff_mul_le hden).mpr h
  unfold roundRatio
  dsimp only
  split_ifs <;> omega

/-- How often a power of two goes into a ratio, rounded. -/
def mantissaAt (num den : Nat) (exponent : Int) : Nat :=
  if 0 ≤ exponent then roundRatio num (den * twoTo exponent.toNat)
  else roundRatio (num * twoTo (-exponent).toNat) den

theorem mantissaAt_le {e : Int} {c : Nat} (hden : 0 < den) (h : (num : ℚ) < c * (den * 2 ^ e)) :
    mantissaAt num den e ≤ c := by
  unfold mantissaAt
  split
  case isTrue hsign =>
    rw [zpow_of_nonneg hsign, ← twoTo_eq] at h
    exact roundRatio_le (Nat.mul_pos hden (twoTo_pos _)) (by exact_mod_cast h)
  case isFalse hsign =>
    have hpos : (0 : ℚ) < 2 ^ (-e).toNat := by positivity
    rw [zpow_of_neg hsign, ← mul_assoc, ← div_eq_mul_inv, lt_div_iff₀ hpos, ← twoTo_eq] at h
    exact roundRatio_le hden (by exact_mod_cast h)

theorem le_mantissaAt {e : Int} {c : Nat} (hden : 0 < den) (h : (c * (den * 2 ^ e) : ℚ) ≤ num) :
    c ≤ mantissaAt num den e := by
  unfold mantissaAt
  split
  case isTrue hsign =>
    rw [zpow_of_nonneg hsign, ← twoTo_eq] at h
    exact le_roundRatio (Nat.mul_pos hden (twoTo_pos _)) (by exact_mod_cast h)
  case isFalse hsign =>
    have hpos : (0 : ℚ) < 2 ^ (-e).toNat := by positivity
    rw [zpow_of_neg hsign, ← mul_assoc, ← div_eq_mul_inv, div_le_iff₀ hpos, ← twoTo_eq] at h
    exact le_roundRatio hden (by exact_mod_cast h)

/-- The closest double as a mantissa and an exponent. -/
theorem exists_assemble (negative : Bool) (hnum : 0 < num) (hden : 0 < den) :
    ∃ m e, nearest negative num den = assemble negative m e ∧ Canonical m e ∧
      (-1022 ≤ leadingBit num den → m ≠ 0 ∧ leadingBit num den < totalExponent m e) ∧
      totalExponent m e ≤ max (-1020) (leadingBit num den + 2) := by
  have hspec := leadingBit_spec hnum hden
  have h52 : twoTo 52 = 2 ^ 52 := rfl
  have h53 : twoTo 53 = 2 ^ 53 := rfl
  generalize hlead : leadingBit num den = lead at *
  generalize hexponent : max leastExponent (lead - 52) = e
  rw [leastExponent] at hexponent
  -- Fifty-three digits are taken, and rounding may reach the power of two above them.
  have hr : mantissaAt num den e ≤ 2 ^ 53 := by
    refine mantissaAt_le hden (hspec.2.trans_le ?_)
    have hpow : (2 : ℚ) ^ (lead + 1) ≤ 2 ^ (53 + e) := zpow_le_zpow_right₀ one_le_two (by omega)
    rw [zpow_add₀ two_ne_zero 53] at hpow
    push_cast
    calc (den : ℚ) * 2 ^ (lead + 1) ≤ den * (2 ^ (53 : Int) * 2 ^ e) := by gcongr
      _ = 2 ^ 53 * (den * 2 ^ e) := by
          norm_cast
          ring
  -- Only at the least exponent may there be fewer.
  have hfull : e = lead - 52 → 2 ^ 52 ≤ mantissaAt num den e := by
    intro he
    refine le_mantissaAt hden (le_trans (le_of_eq ?_) hspec.1)
    push_cast
    calc (2 ^ 52 * (den * 2 ^ e) : ℚ) = den * (2 ^ (52 : Int) * 2 ^ e) := by
          norm_cast
          ring
      _ = den * 2 ^ lead := by
          rw [← zpow_add₀ two_ne_zero]
          congr 2
          omega
  have hnearest : nearest negative num den =
      if mantissaAt num den e = twoTo 53 then assemble negative (twoTo 52) (e + 1)
      else assemble negative (mantissaAt num den e) e := by
    unfold nearest mantissaAt
    rw [if_neg hnum.ne', hlead, ← hexponent]
    rfl
  rw [hnearest, h52, h53]
  generalize mantissaAt num den e = r at *
  split
  case isTrue h =>
    refine ⟨2 ^ 52, e + 1, rfl, ⟨by decide, by omega, fun _ => Nat.le_refl _⟩, ?_, ?_⟩ <;>
      rw [totalExponent, Nat.log2_two_pow]
    · omega
    · omega
  case isFalse h =>
    have hlog : r.log2 ≤ 52 := by
      by_cases hzero : r = 0
      · simp [hzero]
      · have := (Nat.log2_lt hzero).mpr (show r < 2 ^ 53 by omega)
        omega
    refine ⟨r, e, rfl, ⟨by omega, by omega, fun he => hfull (by omega)⟩, fun hlow => ?_, ?_⟩
    · have hge := hfull (by omega)
      have := (Nat.le_log2 (by omega)).mpr hge
      rw [totalExponent]
      omega
    · rw [totalExponent]
      omega

end

/-! ### The bits -/

section

variable {m : Nat} {e : Int}

/-- Bits with the digits of a mantissa and an exponent are the double made of these. -/
theorem unpack_pack_unpack (h : Canonical m e) (he : e ≤ 971)
    (bits : BitVec Format.binary64.numBits) (hmantissa : (unpackMantissa bits).toNat = m % 2 ^ 52)
    (hexponent : (unpackExponent bits).toNat = if m < 2 ^ 52 then 0 else (e + 1075).toNat) :
    (m = 0 ∧ ∃ s, (Float.Model.pack (UnpackedFloat.unpack Format.binary64 bits)).unpack = .zero s) ∨
      ∃ s pos, (Float.Model.pack (UnpackedFloat.unpack Format.binary64 bits)).unpack =
        .finite s m e pos := by
  have hm := h.lt
  have hleast := h.least
  have hfull := h.full
  -- An exponent of zero is for zero and the subnormal numbers, which have the least exponent.
  split at hexponent
  case isTrue hsmall =>
    obtain rfl : e = -1074 := by omega
    by_cases hzero : m = 0
    · obtain ⟨s, hunpack⟩ := unpack_of_zero bits hexponent (by omega)
      rw [hunpack]
      refine Or.inl ⟨hzero, s, ?_⟩
      cases s <;> rfl
    · obtain ⟨s, pos, hunpack⟩ := unpack_of_subnormal bits hexponent (by omega)
      have hdigits : (unpackMantissa bits).toNat = m := by omega
      rw [hunpack, finite_congr pos hdigits rfl]
      obtain ⟨s', hpack⟩ := exists_unpack_pack (s := s) (hdigits ▸ pos) h he
      exact Or.inr ⟨s', _, hpack⟩
  case isFalse hlarge =>
    obtain ⟨s, pos, hunpack⟩ := unpack_of_normal bits (by omega) (by omega)
    have hdigits : 2 ^ 52 + (unpackMantissa bits).toNat = m := by omega
    have hscale : ((unpackExponent bits).toNat : Int) - 1075 = e := by omega
    rw [hunpack, finite_congr pos hdigits hscale]
    obtain ⟨s', hpack⟩ := exists_unpack_pack (s := s) (hdigits ▸ pos) h he
    exact Or.inr ⟨s', _, hpack⟩

/-- Putting the bits of a double together and reading them gives the same mantissa and
exponent. -/
theorem unpack_assemble (negative : Bool) (h : Canonical m e) (he : e ≤ 971) :
    (m = 0 ∧ ∃ s, (assemble negative m e).toModel.unpack = .zero s) ∨
      ∃ s pos, (assemble negative m e).toModel.unpack = .finite s m e pos := by
  have h52 : twoTo 52 = 2 ^ 52 := rfl
  have h63 : twoTo 63 = 2 ^ 63 := rfl
  have hm := h.lt
  have hleast := h.least
  unfold assemble
  dsimp only
  rw [if_neg (Int.not_lt.mpr he), h52, h63]
  generalize hsign : (if negative then 2 ^ 63 else 0 : Nat) = sign
  generalize hmagnitude : (if m < 2 ^ 52 then m
    else (e + 1075).toNat * 2 ^ 52 + (m - 2 ^ 52)) = magnitude
  -- The sign is the highest bit, so it does not reach into the digits below.
  have hsign' : sign = 0 ∨ sign = 2 ^ 63 := by
    cases negative
    · exact Or.inl hsign.symm
    · exact Or.inr hsign.symm
  have hlt : magnitude < 2 ^ 63 := by
    split at hmagnitude <;> omega
  have hbits : (UInt64.ofNat (sign + magnitude)).toNat = sign + magnitude := by
    rw [UInt64.toNat_ofNat', Nat.mod_eq_of_lt (by omega)]
  refine unpack_pack_unpack h he (UInt64.ofNat (sign + magnitude)).toBitVec ?_ ?_
  · rw [toNat_unpackMantissa]
    change (UInt64.ofNat (sign + magnitude)).toNat % 2 ^ 52 = _
    rw [hbits]
    split at hmagnitude <;> omega
  · rw [toNat_unpackExponent]
    change (UInt64.ofNat (sign + magnitude)).toNat / 2 ^ 52 % 2 ^ 11 = _
    rw [hbits]
    by_cases hsmall : m < 2 ^ 52
    · rw [if_pos hsmall] at hmagnitude ⊢
      omega
    · rw [if_neg hsmall] at hmagnitude ⊢
      omega

end

/-! ### The double closest to a ratio -/

section

variable {num den : Nat}

/-- The double closest to a ratio below a power of two. -/
theorem within_nearest {a : Nat} (negative : Bool) (hden : 0 < den) (h : num < 2 ^ a * den)
    (ha : a ≤ 1023) : Within (a + 1) (nearest negative num den) := by
  rw [Within]
  by_cases hzero : num = 0
  · -- Zero has no leading digit, and its bits are written down as such.
    have hform : Canonical 0 leastExponent := ⟨by decide, by decide, by decide⟩
    rw [nearest, if_pos hzero]
    rcases unpack_assemble negative hform (by decide) with ⟨-, s, hunpack⟩ | ⟨s, pos, -⟩
    · rw [hunpack]
      trivial
    · exact absurd pos (Nat.lt_irrefl 0)
  · have hnum := Nat.pos_of_ne_zero hzero
    obtain ⟨m, e, hnearest, hform, -, hhigh⟩ := exists_assemble negative hnum hden
    have hlead : leadingBit num den < a := by
      refine leadingBit_lt hnum hden ?_
      rw [mul_comm]
      exact_mod_cast h
    have he : e ≤ 971 := by
      have hfull := hform.log2_eq
      rw [totalExponent] at hhigh
      omega
    rw [hnearest]
    rcases unpack_assemble negative hform he with ⟨-, s, hunpack⟩ | ⟨s, pos, hunpack⟩
    · rw [hunpack]
      trivial
    · rw [hunpack]
      exact ⟨hform, by omega⟩

/-- The double closest to a ratio that is not below a power of two. -/
theorem atLeast_nearest {a b : Nat} (negative : Bool) (hnum : 0 < num) (hden : 0 < den)
    (h : den ≤ num * 2 ^ b) (hb : b ≤ 1000) (hsmall : num < 2 ^ a * den) (ha : a ≤ 1023) :
    AtLeast b (nearest negative num den) := by
  obtain ⟨m, e, hnearest, hform, hlow, hhigh⟩ := exists_assemble negative hnum hden
  have hlead : -(b : Int) ≤ leadingBit num den := by
    refine le_leadingBit hnum hden ?_
    rw [zpow_neg, ← div_eq_mul_inv, div_le_iff₀ (by positivity)]
    exact_mod_cast h
  -- No overflow: the ratio is below `2 ^ a`, and rounding adds one bit at most.
  have he : e ≤ 971 := by
    have hfull := hform.log2_eq
    have hlead' : leadingBit num den < a := by
      refine leadingBit_lt hnum hden ?_
      rw [mul_comm]
      exact_mod_cast hsmall
    rw [totalExponent] at hhigh
    omega
  obtain ⟨hne, htotal⟩ := hlow (by omega)
  rw [AtLeast, hnearest]
  rcases unpack_assemble negative hform he with ⟨hzero, -⟩ | ⟨s, pos, hunpack⟩
  · exact absurd hzero hne
  · rw [hunpack]
    exact ⟨hform, by omega⟩

end

end CodeMetrics.Binary
