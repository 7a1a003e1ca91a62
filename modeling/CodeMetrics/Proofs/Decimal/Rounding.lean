import CodeMetrics.Decimal.Binary
import Mathlib.Algebra.GroupWithZero.Nat
import Mathlib.Algebra.Order.Group.Int
import Mathlib.Data.Nat.Log

/-!
# `CodeMetrics.Proofs.Decimal.Rounding`: how large a rounded number can get

Operations on doubles first form an exact result, a mantissa and an exponent, and then round it to
fifty-three binary digits. `Small k` says of a rounded result that it is a number below `2 ^ k` in
the form that a double has. Rounding takes a number below `2 ^ k` to one below `2 ^ (k + 1)`
(`small_roundWithAccuracy`).

A sum of many terms needs more than that, since each addition could double the bound. But a number
below `2 ^ k` cannot reach `2 ^ k` by adding less than half a unit in its last place, because
the sum is then rounded down (`small_round_of_lt_half`).
-/

set_option autoImplicit false

namespace CodeMetrics.Binary

open Float.Model UnpackedFloat

/-- A mantissa and an exponent as a double has them: fifty-three binary digits, or fewer at the
least exponent. -/
structure Canonical (m : Nat) (e : Int) : Prop where
  lt : m < 2 ^ 53
  least : -1074 ≤ e
  full : -1074 < e → 2 ^ 52 ≤ m

/-- A number in the form of a double, below two to the power of `k`. -/
def Small (k : Int) : UnpackedFloat → Prop
  | .zero _ => True
  | .finite _ m e _ => Canonical m e ∧ totalExponent m e ≤ k
  | .infinity _ => False
  | .notANumber => False

/-! ### Shifting a mantissa -/

/-- Shifting cuts off binary digits. -/
theorem mantissa_shift (em : ExtendedMantissa) (n : Nat) :
    (em >>> n).mantissa = em.mantissa / 2 ^ n := by
  induction n with
  | zero => simp [HShiftRight.hShiftRight, Nat.repeat]
  | succ n ih =>
    change (em >>> n).mantissa / 2 = _
    rw [ih, Nat.div_div_eq_div_mul, Nat.pow_succ]

/-- The first digit that was cut off. -/
theorem roundBit_shift_succ (em : ExtendedMantissa) (n : Nat) :
    (em >>> (n + 1)).roundBit = (em.mantissa / 2 ^ n % 2 != 0) := by
  change ((em >>> n).mantissa % 2 != 0) = _
  rw [mantissa_shift]

@[simp] theorem mantissa_ofMantissaAndAccuracy (m : Nat) (a : Accuracy) :
    (ExtendedMantissa.ofMantissaAndAccuracy m a).mantissa = m := by
  rcases a with _ | _ | _ | _ <;> rfl

/-- Rounding goes up by one at most. -/
theorem roundedMantissa_bounds (em : ExtendedMantissa) :
    em.mantissa ≤ em.roundedMantissa ∧ em.roundedMantissa ≤ em.mantissa + 1 := by
  rcases em with ⟨m, r, s⟩
  cases r <;> cases s <;>
    simp only [ExtendedMantissa.roundedMantissa, ExtendedMantissa.accuracy,
      Accuracy.roundToNearestEven] <;>
    omega

/-- Rounding goes down if the first digit that was cut off is zero. -/
theorem roundedMantissa_of_roundBit {em : ExtendedMantissa} (h : em.roundBit = false) :
    em.roundedMantissa = em.mantissa := by
  rcases em with ⟨m, r, s⟩
  cases h
  cases s <;> rfl

theorem targetExponent_eq (t : Int) :
    Format.binary64.targetExponent t = max (t - 53) (-1074) := by
  rw [Format.targetExponent]
  rfl

/-- A mantissa of fifty-three digits stays as it is. -/
theorem shiftToTargetExponent_of_lt {m : Nat} {e : Int} (hm : m < 2 ^ 53) (he : -1074 ≤ e) :
    shiftToTargetExponent Format.binary64 m e .exact = (⟨m, false, false⟩, e) := by
  have hlog : m.log2 ≤ 52 := by
    by_cases hzero : m = 0
    · simp [hzero]
    · have := (Nat.log2_lt hzero).mpr hm
      omega
  have hshift : (Format.binary64.targetExponent (totalExponent m e) - e).toNat = 0 := by
    rw [targetExponent_eq, totalExponent]
    omega
  simp [shiftToTargetExponent, shiftToExponent, hshift, HShiftRight.hShiftRight, Nat.repeat,
    ExtendedMantissa.ofMantissaAndAccuracy]

/-- A mantissa that got one digit too many loses it again, which is a zero. -/
theorem shiftToTargetExponent_carry {e : Int} (he : -1074 ≤ e) :
    shiftToTargetExponent Format.binary64 (2 ^ 53) e .exact =
      (⟨2 ^ 52, false, false⟩, e + 1) := by
  have htarget : Format.binary64.targetExponent (totalExponent (2 ^ 53) e) = e + 1 := by
    rw [targetExponent_eq, totalExponent, Nat.log2_two_pow]
    omega
  rw [shiftToTargetExponent, htarget]
  simp [shiftToExponent, HShiftRight.hShiftRight, Nat.repeat,
    ExtendedMantissa.ofMantissaAndAccuracy, ExtendedMantissa.shiftRightOne]

/-! ### Rounding -/

/-- A number of at most `j` binary digits, or two to the power of `j`. -/
theorem log2_le_of_le {r j : Nat} (hzero : r ≠ 0) (h : r ≤ 2 ^ j) : r.log2 ≤ j := by
  have hlt : r < 2 ^ (j + 1) := by
    rw [Nat.pow_succ]
    have := Nat.two_pow_pos j
    omega
  have := (Nat.log2_lt hzero).mpr hlt
  omega

/-- Cutting off `n` of at most `n + j` digits leaves at most `j`. -/
theorem div_lt_of_log2 {m n j : Nat} (h : m.log2 < n + j) : m / 2 ^ n < 2 ^ j := by
  rw [Nat.div_lt_iff_lt_mul (Nat.two_pow_pos n), ← Nat.pow_add]
  calc m < 2 ^ (m.log2 + 1) := Nat.lt_log2_self
    _ ≤ 2 ^ (j + n) := Nat.pow_le_pow_right (by decide) (by omega)

/-- Cutting off `n` of more than `n + j` digits leaves more than `j`. -/
theorem le_div_of_log2 {m n j : Nat} (hzero : m ≠ 0) (h : n + j ≤ m.log2) :
    2 ^ j ≤ m / 2 ^ n := by
  rw [Nat.le_div_iff_mul_le (Nat.two_pow_pos n), ← Nat.pow_add]
  calc 2 ^ (j + n) ≤ 2 ^ m.log2 := Nat.pow_le_pow_right (by decide) (by omega)
    _ ≤ m := Nat.log2_self_le hzero

/-- The number made of a rounded mantissa, which may have got one digit too many. -/
def carry (s : Sign) (r : Nat) (t : Int) : UnpackedFloat :=
  if h : r = 0 then .zero s
  else if r < 2 ^ 53 then .finite s r t (Nat.pos_of_ne_zero h)
  else .finite s (2 ^ 52) (t + 1) (by decide)

/-- A rounded mantissa in the form of a double. -/
theorem small_carry {s : Sign} {r : Nat} {t k : Int} (hr : r ≤ 2 ^ 53) (ht : -1074 ≤ t)
    (full : -1074 < t → 2 ^ 52 ≤ r) (hk : r ≠ 0 → totalExponent r t ≤ k) :
    Small k (carry s r t) := by
  unfold carry
  by_cases hzero : r = 0
  · rw [dif_pos hzero]
    trivial
  rw [dif_neg hzero]
  by_cases hlt : r < 2 ^ 53
  · rw [if_pos hlt]
    exact ⟨⟨hlt, ht, full⟩, hk hzero⟩
  · rw [if_neg hlt]
    obtain rfl : r = 2 ^ 53 := by omega
    have htotal := hk hzero
    simp only [totalExponent, Nat.log2_two_pow] at htotal
    refine ⟨⟨by decide, by omega, fun _ => Nat.le_refl _⟩, ?_⟩
    rw [totalExponent, Nat.log2_two_pow]
    omega

section

variable {s : Sign} {m : Nat} {e k : Int} {a : Accuracy}

/-- The mantissa after the first shift, before it is rounded. -/
theorem mantissa_shiftToTargetExponent :
    (shiftToTargetExponent Format.binary64 m e a).1.mantissa =
      m / 2 ^ (Format.binary64.targetExponent (totalExponent m e) - e).toNat := by
  rw [shiftToTargetExponent, shiftToExponent, mantissa_shift, mantissa_ofMantissaAndAccuracy]

/-- The first shift leaves fifty-three digits at most. -/
theorem mantissa_shiftToTargetExponent_lt :
    (shiftToTargetExponent Format.binary64 m e a).1.mantissa < 2 ^ 53 := by
  rw [mantissa_shiftToTargetExponent]
  apply div_lt_of_log2
  rw [targetExponent_eq, totalExponent]
  omega

/-- Rounding shifts, rounds, and shifts once more if there is a digit too many. -/
theorem roundWithAccuracy_eq :
    roundWithAccuracy Format.binary64 s m e a =
      carry s (shiftToTargetExponent Format.binary64 m e a).1.roundedMantissa
        (shiftToTargetExponent Format.binary64 m e a).2 := by
  have hlt := mantissa_shiftToTargetExponent_lt (m := m) (e := e) (a := a)
  have hexponent : -1074 ≤ (shiftToTargetExponent Format.binary64 m e a).2 := by
    rw [shiftToTargetExponent, shiftToExponent, targetExponent_eq]
    omega
  rw [roundWithAccuracy]
  -- From here on only the bounds of the shifted mantissa matter.
  generalize shiftToTargetExponent Format.binary64 m e a = first at hlt hexponent
  obtain ⟨em, t⟩ := first
  dsimp only at hlt hexponent ⊢
  have hbounds := roundedMantissa_bounds em
  by_cases hround : em.roundedMantissa < 2 ^ 53
  · rw [shiftToTargetExponent_of_lt hround hexponent]
    unfold carry
    by_cases hzero : em.roundedMantissa = 0
    · rw [dif_pos hzero, dif_pos hzero]
    · rw [dif_neg hzero, dif_neg hzero, if_pos hround]
  · have hcarry : em.roundedMantissa = 2 ^ 53 := by omega
    rw [hcarry, shiftToTargetExponent_carry hexponent]
    rfl

/-- Where the mantissa has digits to spare, rounding at most doubles the bound. -/
theorem small_roundWithAccuracy (fits : e ≤ Format.binary64.targetExponent (totalExponent m e))
    (hk : totalExponent m e ≤ k) (hleast : -1074 ≤ k) :
    Small (k + 1) (roundWithAccuracy Format.binary64 s m e a) := by
  have hbounds := roundedMantissa_bounds (shiftToTargetExponent Format.binary64 m e a).1
  have hlt := mantissa_shiftToTargetExponent_lt (m := m) (e := e) (a := a)
  have hmantissa := mantissa_shiftToTargetExponent (m := m) (e := e) (a := a)
  have hexponent : (shiftToTargetExponent Format.binary64 m e a).2 =
      Format.binary64.targetExponent (totalExponent m e) := by
    rw [shiftToTargetExponent, shiftToExponent]
    omega
  rw [roundWithAccuracy_eq]
  generalize shiftToTargetExponent Format.binary64 m e a = first at *
  obtain ⟨em, t⟩ := first
  dsimp only at *
  subst hexponent
  rw [targetExponent_eq] at *
  rw [totalExponent] at *
  apply small_carry
  · omega
  · omega
  · intro hfull
    have hge : 2 ^ 52 ≤ em.mantissa := by
      rw [hmantissa]
      apply le_div_of_log2
      · rintro rfl
        simp only [Nat.log2_zero] at *
        omega
      · omega
    omega
  · intro hzero
    -- At most `j` digits are left, and rounding can give one more.
    obtain ⟨j, hj⟩ : ∃ j : Nat,
        j = ((m.log2 : Int) + 1 + e - max ((m.log2 : Int) + 1 + e - 53) (-1074)).toNat := ⟨_, rfl⟩
    have hdigits : em.mantissa < 2 ^ j := by
      rw [hmantissa]
      apply div_lt_of_log2
      omega
    have hlog := log2_le_of_le hzero (j := j) (by omega)
    rw [totalExponent]
    omega

/-- Shifting to the left adds binary digits. -/
theorem log2_shiftLeft {m : Nat} (hm : m ≠ 0) (n : Nat) : (m <<< n).log2 = m.log2 + n := by
  rw [Nat.shiftLeft_eq, Nat.log2_eq_iff (Nat.mul_ne_zero hm (Nat.two_pow_pos n).ne'),
    Nat.pow_add, Nat.add_right_comm, Nat.pow_add]
  exact ⟨Nat.mul_le_mul_right _ (Nat.log2_self_le hm),
    Nat.mul_lt_mul_of_pos_right Nat.lt_log2_self (Nat.two_pow_pos n)⟩

/-- Adding binary digits keeps the number. -/
theorem totalExponent_shiftLeft (hm : m ≠ 0) (n : Nat) :
    totalExponent (m <<< n) (e - n) = totalExponent m e := by
  rw [totalExponent, totalExponent, log2_shiftLeft hm]
  omega

/-- Rounding at most doubles the bound. -/
theorem small_round (hm : m ≠ 0) (hk : totalExponent m e ≤ k) (hleast : -1074 ≤ k) :
    Small (k + 1) (UnpackedFloat.round Format.binary64 s m e) := by
  rw [UnpackedFloat.round]
  dsimp only [decreaseExponent]
  apply small_roundWithAccuracy
  · rw [totalExponent_shiftLeft hm]
    omega
  · rw [totalExponent_shiftLeft hm]
    exact hk
  · exact hleast

/-- A number that is less than half a unit above the largest one below `2 ^ k` is rounded down. -/
theorem small_round_of_lt_half (hm : m ≠ 0) (hk : -1021 ≤ k) (he : e ≤ k - 53)
    (h : 2 * m < (2 ^ 54 - 1) * 2 ^ (k - 53 - e).toNat) :
    Small k (UnpackedFloat.round Format.binary64 s m e) := by
  by_cases hless : totalExponent m e ≤ k - 1
  · have := small_round (s := s) hm hless (by omega)
    rwa [Int.sub_add_cancel] at this
  obtain ⟨n, hn⟩ : ∃ n : Nat, n = (k - 53 - e).toNat := ⟨_, rfl⟩
  rw [← hn] at h
  have hlog : m.log2 = n + 52 := by
    have hlt : m.log2 < n + 53 := by
      rw [Nat.log2_lt hm, Nat.pow_add]
      omega
    rw [totalExponent] at hless
    omega
  have htarget : Format.binary64.targetExponent (totalExponent m e) = k - 53 := by
    rw [targetExponent_eq, totalExponent]
    omega
  -- The exponent is small enough already, so the mantissa is shifted only once.
  have hround : UnpackedFloat.round Format.binary64 s m e =
      roundWithAccuracy Format.binary64 s m e .exact := by
    rw [UnpackedFloat.round, htarget]
    dsimp only [decreaseExponent]
    rw [show (e - (k - 53)).toNat = 0 by omega]
    simp
  have hshift : shiftToTargetExponent Format.binary64 m e .exact =
      (ExtendedMantissa.ofMantissaAndAccuracy m .exact >>> n, k - 53) := by
    rw [shiftToTargetExponent, htarget, shiftToExponent, ← hn]
    congr 1
    omega
  have hmantissa :
      (ExtendedMantissa.ofMantissaAndAccuracy m .exact >>> n).mantissa = m / 2 ^ n := by
    rw [mantissa_shift, mantissa_ofMantissaAndAccuracy]
  have hbounds := roundedMantissa_bounds (ExtendedMantissa.ofMantissaAndAccuracy m .exact >>> n)
  have hlt : m / 2 ^ n < 2 ^ 53 := div_lt_of_log2 (by omega)
  have hge : 2 ^ 52 ≤ m / 2 ^ n := le_div_of_log2 hm (by omega)
  have hrounded :
      (ExtendedMantissa.ofMantissaAndAccuracy m .exact >>> n).roundedMantissa < 2 ^ 53 := by
    by_cases hlargest : m / 2 ^ n = 2 ^ 53 - 1
    · -- Half a unit is not reached, so the first digit that is cut off is zero.
      rw [roundedMantissa_of_roundBit, hmantissa]
      · exact hlt
      · cases n with
        | zero => rfl
        | succ n =>
          rw [roundBit_shift_succ, mantissa_ofMantissaAndAccuracy]
          rw [Nat.pow_succ, ← Nat.div_div_eq_div_mul] at hlargest
          have hbelow : m / 2 ^ n < 2 ^ 54 - 1 := by
            rw [Nat.div_lt_iff_lt_mul (Nat.two_pow_pos n)]
            rw [Nat.pow_succ] at h
            omega
          have heven : m / 2 ^ n % 2 = 0 := by omega
          simp [heven]
    · omega
  rw [hround, roundWithAccuracy_eq, hshift]
  change Small k (carry s
    (ExtendedMantissa.ofMantissaAndAccuracy m .exact >>> n).roundedMantissa (k - 53))
  apply small_carry
  · omega
  · omega
  · omega
  · intro hzero
    have := (Nat.log2_lt hzero).mpr hrounded
    rw [totalExponent]
    omega

/-- Rounding a number with a sign. -/
theorem normalize_cases (m : Int) (e : Int) (zeroSign : Sign) :
    UnpackedFloat.normalize Format.binary64 m e zeroSign = .zero zeroSign ∧ m = 0 ∨
      ∃ s, UnpackedFloat.normalize Format.binary64 m e zeroSign =
        UnpackedFloat.round Format.binary64 s m.natAbs e ∧ m.natAbs ≠ 0 := by
  unfold UnpackedFloat.normalize
  rcases Int.lt_trichotomy m 0 with hneg | rfl | hpos
  · rw [Int.compare_eq_lt.mpr hneg]
    refine Or.inr ⟨.negative, ?_, by omega⟩
    rw [show m.natAbs = (-m).toNat by omega]
  · exact Or.inl ⟨rfl, rfl⟩
  · rw [Int.compare_eq_gt.mpr hpos]
    refine Or.inr ⟨.positive, ?_, by omega⟩
    rw [show m.natAbs = m.toNat by omega]

end

end CodeMetrics.Binary
