import CodeMetrics.Proofs.Decimal.Rounding
import CodeMetrics.Proofs.Decimal.Shortest

/-!
# `CodeMetrics.Proofs.Decimal.Magnitude`: doubles that stay in range

`Within k x` says that a double is finite and its magnitude is below `2 ^ k`, and `AtLeast b x`
that it is at least `2 ^ (-b)`. Every operation has a lemma that gives a bound on its result from
bounds on its operands, with one bit to spare for rounding. A sum of many terms would lose one bit
for each of them. Where the terms are much smaller than the bound, rounding cannot cross it, and
the bound stays as it is (`Within.add_small`).

The operations are defined on a mantissa and an exponent, which a double is made of by packing
them into bits. The lemmas are stated in that form first and carried over to doubles by
`small_unpack_pack`.
-/

set_option autoImplicit false

namespace CodeMetrics.Binary

open Float.Model UnpackedFloat

/-! ### Operations on numbers in the form of doubles -/

section

variable {x y : UnpackedFloat} {a b k : Int}

/-- A smaller bound is a bound. -/
theorem Small.mono (h : Small a x) (hab : a ≤ b) : Small b x := by
  cases x with
  | zero s => trivial
  | finite s m e pos => exact ⟨h.1, h.2.trans hab⟩
  | infinity s => exact h
  | notANumber => exact h

/-- A number in the form of a double whose magnitude is at least two to the power of `-b`. -/
def Large (b : Int) : UnpackedFloat → Prop
  | .finite _ m e _ => Canonical m e ∧ -b < totalExponent m e
  | _ => False

/-- The binary digits of a product. -/
theorem log2_mul_bounds {m n : Nat} (hm : m ≠ 0) (hn : n ≠ 0) :
    m.log2 + n.log2 ≤ (m * n).log2 ∧ (m * n).log2 ≤ m.log2 + n.log2 + 1 := by
  have hmn : m * n ≠ 0 := Nat.mul_ne_zero hm hn
  constructor
  · rw [Nat.le_log2 hmn, Nat.pow_add]
    exact Nat.mul_le_mul (Nat.log2_self_le hm) (Nat.log2_self_le hn)
  · rw [← Nat.lt_add_one_iff, Nat.log2_lt hmn,
      show m.log2 + n.log2 + 1 + 1 = (m.log2 + 1) + (n.log2 + 1) by omega, Nat.pow_add]
    exact Nat.mul_lt_mul'' Nat.lt_log2_self Nat.lt_log2_self

/-- A mantissa above the least exponent has all of its digits. -/
theorem Canonical.log2_eq {m : Nat} {e : Int} (h : Canonical m e) (he : -1074 < e) :
    m.log2 = 52 := by
  have hge := h.full he
  exact (Nat.log2_eq_iff (by omega)).mpr ⟨hge, h.lt⟩

/-- A bounded number is zero or made of a mantissa and an exponent. -/
theorem Small.cases (h : Small a x) :
    (∃ s, x = .zero s) ∨
      ∃ s m e pos, x = .finite s m e pos ∧ Canonical m e ∧ (m.log2 : Int) + 1 + e ≤ a := by
  cases x with
  | zero s => exact Or.inl ⟨s, rfl⟩
  | finite s m e pos => exact Or.inr ⟨s, m, e, pos, rfl, h⟩
  | infinity s => exact h.elim
  | notANumber => exact h.elim

/-- A product is below the product of the bounds, up to rounding. -/
theorem small_mul (hx : Small a x) (hy : Small b y) (hk : -1074 ≤ a + b) :
    Small (a + b + 1) (UnpackedFloat.mul Format.binary64 x y) := by
  rcases hx.cases with ⟨s, rfl⟩ | ⟨s, m, e, pos, rfl, hcanonical, htotal⟩ <;>
    rcases hy.cases with ⟨s', rfl⟩ | ⟨s', m', e', pos', rfl, hcanonical', htotal'⟩
  · trivial
  · trivial
  · trivial
  -- The exact product has the digits of both factors, so there are digits to spare.
  · have hlog := log2_mul_bounds pos.ne' pos'.ne'
    have hleast := hcanonical.least
    have hleast' := hcanonical'.least
    have hfull := hcanonical.log2_eq
    have hfull' := hcanonical'.log2_eq
    refine small_roundWithAccuracy ?_ ?_ hk
    · rw [targetExponent_eq, totalExponent]
      omega
    · rw [totalExponent]
      omega

theorem shiftLeft_ne_zero {m : Nat} (pos : 0 < m) (n : Nat) : m <<< n ≠ 0 := by
  rw [Nat.shiftLeft_eq]
  exact (Nat.mul_pos pos (Nat.two_pow_pos n)).ne'

/-- A mantissa at a smaller exponent. -/
theorem shiftLeft_lt {m : Nat} {e least : Int} (pos : 0 < m) (hleast : least ≤ e)
    (htotal : (m.log2 : Int) + 1 + e ≤ k) :
    m <<< (e - least).toNat < 2 ^ (k - least).toNat := by
  have hlog := log2_shiftLeft pos.ne' (e - least).toNat
  rw [← Nat.log2_lt (shiftLeft_ne_zero pos _), hlog]
  omega

theorem natAbs_apply (s : Sign) (m : Nat) : (s.apply m).natAbs = m := by
  cases s <;> simp [Sign.apply]

/-- A sum or a difference of two bounded numbers, before it is rounded. -/
theorem small_normalize {m m' : Nat} {e e' sum : Int} {zeroSign : Sign} (pos : 0 < m)
    (pos' : 0 < m') (htotal : (m.log2 : Int) + 1 + e ≤ k) (htotal' : (m'.log2 : Int) + 1 + e' ≤ k)
    (hleast : -1075 ≤ k)
    (hsum : sum.natAbs ≤ m <<< (e - min e e').toNat + m' <<< (e' - min e e').toNat) :
    Small (k + 2) (UnpackedFloat.normalize Format.binary64 sum (min e e') zeroSign) := by
  have hm := shiftLeft_lt pos (Int.min_le_left e e') htotal
  have hm' := shiftLeft_lt pos' (Int.min_le_right e e') htotal'
  rcases normalize_cases sum (min e e') zeroSign with ⟨hzero, -⟩ | ⟨s, hround, hne⟩
  · rw [hzero]
    trivial
  · rw [hround, show k + 2 = k + 1 + 1 by omega]
    refine small_round hne ?_ (by omega)
    have hlt : sum.natAbs.log2 < (k - min e e').toNat + 1 := by
      rw [Nat.log2_lt hne, Nat.pow_succ]
      omega
    rw [totalExponent]
    omega

theorem small_add (hx : Small k x) (hy : Small k y) (hk : -1075 ≤ k) :
    Small (k + 2) (UnpackedFloat.add Format.binary64 x y) := by
  rcases hx.cases with ⟨s, rfl⟩ | ⟨s, m, e, pos, rfl, hcanonical, htotal⟩ <;>
    rcases hy.cases with ⟨s', rfl⟩ | ⟨s', m', e', pos', rfl, hcanonical', htotal'⟩
  · cases s <;> cases s' <;> trivial
  · exact hy.mono (by omega)
  · exact hx.mono (by omega)
  · refine small_normalize pos pos' htotal htotal' hk ?_
    refine (Int.natAbs_add_le _ _).trans ?_
    rw [natAbs_apply, natAbs_apply]

theorem small_sub (hx : Small k x) (hy : Small k y) (hk : -1075 ≤ k) :
    Small (k + 2) (UnpackedFloat.sub Format.binary64 x y) := by
  rcases hx.cases with ⟨s, rfl⟩ | ⟨s, m, e, pos, rfl, hcanonical, htotal⟩ <;>
    rcases hy.cases with ⟨s', rfl⟩ | ⟨s', m', e', pos', rfl, hcanonical', htotal'⟩
  · cases s <;> cases s' <;> trivial
  · exact hy.mono (by omega)
  · exact hx.mono (by omega)
  · refine small_normalize pos pos' htotal htotal' hk ?_
    refine (Int.natAbs_sub_le _ _).trans ?_
    rw [natAbs_apply, natAbs_apply]

/-- A term that is small enough does not take a sum over a power of two. -/
theorem small_add_of_lt_half (hx : Small k x) (hy : Small b y) (hb : b + 54 ≤ k)
    (hk : -1021 ≤ k) : Small k (UnpackedFloat.add Format.binary64 x y) := by
  rcases hx.cases with ⟨s, rfl⟩ | ⟨s, m, e, pos, rfl, hcanonical, htotal⟩ <;>
    rcases hy.cases with ⟨s', rfl⟩ | ⟨s', m', e', pos', rfl, hcanonical', htotal'⟩
  · cases s <;> cases s' <;> trivial
  · exact hy.mono (by omega)
  · exact hx
  · have he : e ≤ k - 53 := by
      have hfull := hcanonical.log2_eq
      have hleast := hcanonical.least
      omega
    -- Both mantissas are taken to the smaller exponent. The first has fifty-three digits at most,
    -- and twice the second is less than a unit in the last of them.
    have hlarger : m <<< (e - min e e').toNat ≤ (2 ^ 53 - 1) * 2 ^ (k - 53 - min e e').toNat := by
      rw [Nat.shiftLeft_eq]
      have hm := hcanonical.lt
      exact Nat.mul_le_mul (by omega) (Nat.pow_le_pow_right (by decide) (by omega))
    have hsmaller : 2 * (m' <<< (e' - min e e').toNat) < 2 ^ (k - 53 - min e e').toNat := by
      have hm' := shiftLeft_lt pos' (Int.min_le_right e e') (htotal'.trans (by omega : b ≤ k - 54))
      rw [show (k - 53 - min e e').toNat = (k - 54 - min e e').toNat + 1 by omega, Nat.pow_succ]
      omega
    have hsum := (Int.natAbs_add_le (s.apply (m <<< (e - min e e').toNat))
      (s'.apply (m' <<< (e' - min e e').toNat)))
    rw [natAbs_apply, natAbs_apply] at hsum
    change Small k (UnpackedFloat.normalize Format.binary64
      (s.apply (m <<< (e - min e e').toNat : Nat) + s'.apply (m' <<< (e' - min e e').toNat : Nat))
      (min e e') .positive)
    generalize s.apply (m <<< (e - min e e').toNat : Nat) +
      s'.apply (m' <<< (e' - min e e').toNat : Nat) = sum at hsum ⊢
    rcases normalize_cases sum (min e e') .positive with ⟨hzero, -⟩ | ⟨sign, hround, hne⟩
    · rw [hzero]
      trivial
    · rw [hround]
      exact small_round_of_lt_half hne hk (by omega) (by omega)

/-- The binary digits of a quotient that is not zero. -/
theorem log2_div_bounds {m n : Nat} (hn : n ≠ 0) (hq : m / n ≠ 0) :
    m.log2 ≤ (m / n).log2 + n.log2 + 1 ∧ (m / n).log2 + n.log2 ≤ m.log2 := by
  have hm : m ≠ 0 := by
    rintro rfl
    simp at hq
  have hproduct := log2_mul_bounds hq hn
  have hle : (m / n * n).log2 ≤ m.log2 := by
    rw [Nat.le_log2 hm]
    exact (Nat.log2_self_le (Nat.mul_ne_zero hq hn)).trans (Nat.div_mul_le_self m n)
  refine ⟨?_, by omega⟩
  rw [← Nat.lt_add_one_iff, Nat.log2_lt hm,
    show (m / n).log2 + n.log2 + 1 + 1 = ((m / n).log2 + 1) + (n.log2 + 1) by omega, Nat.pow_add]
  calc m < (m / n + 1) * n := Nat.lt_mul_of_div_lt (Nat.lt_succ_self _) (Nat.pos_of_ne_zero hn)
    _ ≤ 2 ^ ((m / n).log2 + 1) * 2 ^ (n.log2 + 1) :=
      Nat.mul_le_mul Nat.lt_log2_self Nat.lt_log2_self.le

/-- A quotient is below the bound of the dividend and above that of the divisor, up to
rounding. -/
theorem small_div (hx : Small a x) (hy : Large b y) (hk : -1073 ≤ a + b) :
    Small (a + b + 1) (UnpackedFloat.div Format.binary64 x y) := by
  cases y with
  | zero s => exact hy.elim
  | infinity s => exact hy.elim
  | notANumber => exact hy.elim
  | finite s' m' e' pos' =>
    rcases hx.cases with ⟨s, rfl⟩ | ⟨s, m, e, pos, rfl, hcanonical, htotal⟩
    · trivial
    · obtain ⟨hcanonical', htotal'⟩ := hy
      rw [totalExponent] at htotal'
      change Small (a + b + 1) (roundWithAccuracy Format.binary64 (s / s')
        (divCore Format.binary64 m e m' e').1 (divCore Format.binary64 m e m' e').2.1
        (divCore Format.binary64 m e m' e').2.2)
      -- The dividend gets as many digits as the quotient needs, and the rest of the division only
      -- matters for rounding.
      dsimp only [divCore]
      generalize htarget : min (e - e') (Format.binary64.targetExponent
        (totalExponent m e - totalExponent m' e')) = target
      rw [targetExponent_eq, totalExponent, totalExponent] at htarget
      have hlog := log2_shiftLeft pos.ne' (e - e' - target).toNat
      have hshifted := shiftLeft_ne_zero pos (e - e' - target).toNat
      generalize m <<< (e - e' - target).toNat = shifted at hlog hshifted ⊢
      by_cases hq : shifted / m' = 0
      · -- The quotient is below all doubles but zero, so only its accuracy counts.
        have hlt : shifted < m' := (Nat.div_eq_zero_iff_lt pos').mp hq
        have hdigits := (Nat.log2_lt hshifted).mpr (hlt.trans Nat.lt_log2_self)
        rw [hq]
        refine small_roundWithAccuracy ?_ ?_ (by omega)
        · rw [targetExponent_eq, totalExponent, Nat.log2_zero]
          omega
        · rw [totalExponent, Nat.log2_zero]
          omega
      · have hdigits := log2_div_bounds pos'.ne' hq
        refine small_roundWithAccuracy ?_ ?_ (by omega)
        · rw [targetExponent_eq, totalExponent]
          omega
        · rw [totalExponent]
          omega

end

/-! ### Doubles -/

/-- A number is given by its sign, its mantissa and its exponent. -/
theorem finite_congr {s : Sign} {m n : Nat} {e f : Int} (pos : 0 < m) (hm : m = n) (he : e = f) :
    UnpackedFloat.finite s m e pos = .finite s n f (hm ▸ pos) := by
  subst hm he
  rfl

section

variable (bits : BitVec Format.binary64.numBits)

theorem toNat_unpackMantissa : (unpackMantissa bits).toNat = bits.toNat % 2 ^ 52 := by
  simp [unpackMantissa]

theorem toNat_unpackExponent : (unpackExponent bits).toNat = bits.toNat / 2 ^ 52 % 2 ^ 11 := by
  simp [unpackExponent, Nat.shiftRight_eq_div_pow]

/-- What the bits of a double say if its exponent is neither the least nor the largest. -/
theorem unpack_of_normal (hinfinite : (unpackExponent bits).toNat ≠ 2047)
    (hzero : (unpackExponent bits).toNat ≠ 0) :
    ∃ s pos, UnpackedFloat.unpack Format.binary64 bits =
      .finite s (2 ^ 52 + (unpackMantissa bits).toNat)
        ((unpackExponent bits).toNat - 1075) pos := by
  have hmantissa : (1#1 ++ unpackMantissa bits).toNat = 2 ^ 52 + (unpackMantissa bits).toNat := by
    rw [BitVec.toNat_append, ← Nat.shiftLeft_add_eq_or_of_lt (unpackMantissa bits).isLt]
    rfl
  refine ⟨Sign.ofBitVec (unpackSign bits), by omega, ?_⟩
  unfold UnpackedFloat.unpack
  dsimp only
  rw [if_neg fun h => hinfinite (congrArg BitVec.toNat h),
    if_neg fun h => hzero (congrArg BitVec.toNat h)]
  exact finite_congr _ hmantissa rfl

/-- What the bits of a double say if its exponent is the least one. -/
theorem unpack_of_subnormal (hzero : (unpackExponent bits).toNat = 0)
    (hmantissa : (unpackMantissa bits).toNat ≠ 0) :
    ∃ s pos, UnpackedFloat.unpack Format.binary64 bits =
      .finite s (unpackMantissa bits).toNat (-1074) pos := by
  have hexponent : unpackExponent bits = 0#11 := BitVec.eq_of_toNat_eq hzero
  have hfinite : unpackExponent bits ≠ -1#11 := by
    rw [hexponent]
    decide
  refine ⟨Sign.ofBitVec (unpackSign bits), Nat.pos_of_ne_zero hmantissa, ?_⟩
  unfold UnpackedFloat.unpack
  dsimp only
  rw [if_neg hfinite, if_pos hexponent, dif_neg fun h => hmantissa (congrArg BitVec.toNat h)]
  refine finite_congr _ rfl ?_
  rw [hexponent]
  rfl

/-- What the bits of a double say if there are none but the sign. -/
theorem unpack_of_zero (hzero : (unpackExponent bits).toNat = 0)
    (hmantissa : (unpackMantissa bits).toNat = 0) :
    ∃ s, UnpackedFloat.unpack Format.binary64 bits = .zero s := by
  have hexponent : unpackExponent bits = 0#11 := BitVec.eq_of_toNat_eq hzero
  have hfinite : unpackExponent bits ≠ -1#11 := by
    rw [hexponent]
    decide
  refine ⟨Sign.ofBitVec (unpackSign bits), ?_⟩
  unfold UnpackedFloat.unpack
  dsimp only
  rw [if_neg hfinite, if_pos hexponent, dif_pos (BitVec.eq_of_toNat_eq hmantissa)]

/-- What the bits of a double say if its exponent is the largest one. -/
theorem unpack_of_infinite (hinfinite : (unpackExponent bits).toNat = 2047) :
    (∃ s, UnpackedFloat.unpack Format.binary64 bits = .infinity s) ∨
      UnpackedFloat.unpack Format.binary64 bits = .notANumber := by
  unfold UnpackedFloat.unpack
  dsimp only
  rw [if_pos (BitVec.eq_of_toNat_eq hinfinite)]
  split
  · exact Or.inl ⟨_, rfl⟩
  · exact Or.inr rfl

end

section

variable {s : Sign} {m : Nat} {e : Int} (pos : 0 < m)

/-- The bits of a number with all digits. -/
theorem pack_of_full (hm : m < 2 ^ 53) (hfull : 2 ^ 52 ≤ m) (hleast : -1074 ≤ e) (he : e ≤ 971) :
    UnpackedFloat.pack Format.binary64 (.finite s m e pos) =
      packComponents Format.binary64 s (BitVec.ofNat 11 (e + 1075).toNat) (BitVec.ofNat 52 m) := by
  have hlog : m.log2 + 1 = Format.binary64.mantissaBits := by
    rw [(Nat.log2_eq_iff pos.ne').mpr ⟨hfull, hm⟩]
    rfl
  have hbiased : (e + Format.binary64.exponentBias + (52 : Nat)).toNat = (e + 1075).toNat := by
    rw [show ((Format.binary64.exponentBias : Nat) : Int) = 1023 from rfl]
    omega
  unfold UnpackedFloat.pack
  dsimp only
  rw [hbiased, if_neg (by omega), if_pos hlog]

/-- The bits of a number with fewer digits. -/
theorem pack_of_lt (hm : m < 2 ^ 52) :
    UnpackedFloat.pack Format.binary64 (.finite s m (-1074) pos) =
      packComponents Format.binary64 s 0#11 (BitVec.ofNat 52 m) := by
  have hlog : m.log2 + 1 ≠ Format.binary64.mantissaBits := by
    have hlt := (Nat.log2_lt pos.ne').mpr hm
    rw [show Format.binary64.mantissaBits = 53 from rfl]
    omega
  unfold UnpackedFloat.pack
  dsimp only
  rw [if_neg (by decide), if_neg hlog]

/-- The bits of a number in the form of a double say what its mantissa and exponent are. -/
theorem exists_unpack_pack (hcanonical : Canonical m e) (he : e ≤ 971) :
    ∃ s', (Float.Model.pack (.finite s m e pos)).unpack = .finite s' m e pos := by
  have hm := hcanonical.lt
  have hleast := hcanonical.least
  change ∃ s', UnpackedFloat.unpack Format.binary64 (UnpackedFloat.pack Format.binary64 _) = _
  -- Normal numbers store the mantissa without its leading bit, subnormal ones store all of it.
  by_cases hfull : 2 ^ 52 ≤ m
  · have hscale : (BitVec.ofNat 11 (e + 1075).toNat).toNat = (e + 1075).toNat := by
      rw [BitVec.toNat_ofNat, Nat.mod_eq_of_lt (by omega)]
    have hfraction : (BitVec.ofNat 52 m).toNat = m - 2 ^ 52 := by
      rw [BitVec.toNat_ofNat]
      omega
    rw [pack_of_full pos hm hfull hleast he]
    obtain ⟨s', pos', hunpack⟩ := unpack_of_normal
      (packComponents Format.binary64 s (BitVec.ofNat 11 (e + 1075).toNat) (BitVec.ofNat 52 m))
      (by rw [unpackExponent_packComponents]; omega)
      (by rw [unpackExponent_packComponents]; omega)
    refine ⟨s', hunpack.trans (finite_congr pos' ?_ ?_)⟩
    · rw [unpackMantissa_packComponents]
      omega
    · rw [unpackExponent_packComponents]
      omega
  · obtain rfl : e = -1074 := by
      have := hcanonical.full
      omega
    have hfraction : (BitVec.ofNat 52 m).toNat = m := by
      rw [BitVec.toNat_ofNat, Nat.mod_eq_of_lt (Nat.not_le.mp hfull)]
    rw [pack_of_lt pos (Nat.not_le.mp hfull)]
    obtain ⟨s', pos', hunpack⟩ := unpack_of_subnormal
      (packComponents Format.binary64 s 0#11 (BitVec.ofNat 52 m))
      (by rw [unpackExponent_packComponents]; rfl)
      (by rw [unpackMantissa_packComponents]; omega)
    refine ⟨s', hunpack.trans (finite_congr pos' ?_ rfl)⟩
    rw [unpackMantissa_packComponents, hfraction]

end

/-- Packing a bounded number keeps the bound. -/
theorem small_unpack_pack {x : UnpackedFloat} {k : Int} (h : Small k x) (hk : k ≤ 1024) :
    Small k (Float.Model.pack x).unpack := by
  rcases h.cases with ⟨s, rfl⟩ | ⟨s, m, e, pos, rfl, hcanonical, htotal⟩
  · cases s <;> trivial
  · have he : e ≤ 971 := by
      have hfull := hcanonical.log2_eq
      omega
    obtain ⟨s', hunpack⟩ := exists_unpack_pack (s := s) pos hcanonical he
    rw [hunpack]
    exact ⟨hcanonical, htotal⟩

/-! ### Doubles within bounds -/

/-- A double whose magnitude is below two to the power of `k`. -/
def Within (k : Nat) (x : Float) : Prop :=
  Small k x.toModel.unpack

/-- A double whose magnitude is at least two to the power of `-b`. -/
def AtLeast (b : Nat) (x : Float) : Prop :=
  Large b x.toModel.unpack

section

variable {x y : Float} {a b k : Nat}

theorem Within.mono (h : Within a x) (hab : a ≤ b) : Within b x :=
  Small.mono h (by omega)

theorem Within.mul (hx : Within a x) (hy : Within b y) (hk : a + b + 1 ≤ 1024) :
    Within (a + b + 1) (x * y) := by
  have hsmall := small_mul hx hy (by omega)
  exact small_unpack_pack (hsmall.mono (by omega)) (by omega)

theorem Within.add (hx : Within k x) (hy : Within k y) (hk : k + 2 ≤ 1024) :
    Within (k + 2) (x + y) :=
  small_unpack_pack (small_add hx hy (by omega)) (by omega)

theorem Within.sub (hx : Within k x) (hy : Within k y) (hk : k + 2 ≤ 1024) :
    Within (k + 2) (x - y) :=
  small_unpack_pack (small_sub hx hy (by omega)) (by omega)

/-- Adding a term that is much smaller never takes a sum over a power of two. -/
theorem Within.add_small (hx : Within k x) (hy : Within b y) (hb : b + 54 ≤ k) (hk : k ≤ 1024) :
    Within k (x + y) :=
  small_unpack_pack (small_add_of_lt_half hx hy (by omega) (by omega)) (by omega)

theorem Within.div (hx : Within a x) (hy : AtLeast b y) (hk : a + b + 1 ≤ 1024) :
    Within (a + b + 1) (x / y) := by
  have hsmall := small_div hx hy (by omega)
  exact small_unpack_pack (hsmall.mono (by omega)) (by omega)

end

/-! ### Exact values -/

/-- The bits of a finite double say what `ofFloat` reads. -/
theorem unpack_of_isFinite {x : Float} (h : isFinite x = true) :
    (∃ s, x.toModel.unpack = .zero s) ∧ (ofFloat x).mantissa = 0 ∨
      ∃ s pos, x.toModel.unpack = .finite s (ofFloat x).mantissa (ofFloat x).exponent pos := by
  have h52 : twoTo 52 = 2 ^ 52 := rfl
  have h11 : twoTo 11 = 2 ^ 11 := rfl
  have hmantissa := toNat_unpackMantissa x.toModel.toBits.toBitVec
  have hexponent := toNat_unpackExponent x.toModel.toBits.toBitVec
  change _ = x.toBits.toNat % 2 ^ 52 at hmantissa
  change _ = x.toBits.toNat / 2 ^ 52 % 2 ^ 11 at hexponent
  have hfinite : x.toBits.toNat / 2 ^ 52 % 2 ^ 11 ≠ 2047 := by
    simpa [isFinite, h52, h11] using h
  -- At the least exponent the leading digit is not implied, and the mantissa may be zero.
  by_cases hscale : x.toBits.toNat / 2 ^ 52 % 2 ^ 11 = 0
  · have hm : (ofFloat x).mantissa = x.toBits.toNat % 2 ^ 52 := if_pos hscale
    have he : (ofFloat x).exponent = -1074 := if_pos hscale
    by_cases hzero : x.toBits.toNat % 2 ^ 52 = 0
    · exact Or.inl ⟨unpack_of_zero x.toModel.toBits.toBitVec (by omega) (by omega), hm.trans hzero⟩
    · obtain ⟨s, pos, hunpack⟩ :=
        unpack_of_subnormal x.toModel.toBits.toBitVec (by omega) (by omega)
      exact Or.inr ⟨s, by omega, hunpack.trans (finite_congr pos (by omega) he.symm)⟩
  · have hm : (ofFloat x).mantissa = x.toBits.toNat % 2 ^ 52 + 2 ^ 52 := if_neg hscale
    have he : (ofFloat x).exponent = ((x.toBits.toNat / 2 ^ 52 % 2 ^ 11 : Nat) : Int) - 1075 :=
      if_neg hscale
    obtain ⟨s, pos, hunpack⟩ := unpack_of_normal x.toModel.toBits.toBitVec (by omega) (by omega)
    exact Or.inr ⟨s, by omega, hunpack.trans (finite_congr pos (by omega) (by omega))⟩

/-- A double that is not finite is infinite or no number. -/
theorem unpack_of_not_isFinite {x : Float} (h : isFinite x = false) :
    (∃ s, x.toModel.unpack = .infinity s) ∨ x.toModel.unpack = .notANumber := by
  have hscale : x.toBits.toNat / twoTo 52 % twoTo 11 = 2047 := by simpa [isFinite] using h
  refine unpack_of_infinite x.toModel.toBits.toBitVec ?_
  rw [toNat_unpackExponent]
  exact hscale

/-- A bounded double is finite. -/
theorem Within.isFinite {x : Float} {k : Nat} (h : Within k x) : isFinite x = true := by
  rw [← Bool.not_eq_false]
  intro hinfinite
  rw [Within] at h
  rcases unpack_of_not_isFinite hinfinite with ⟨s, hunpack⟩ | hunpack <;> rw [hunpack] at h <;>
    exact h

/-- The bits of a double other than zero have the form of a double. -/
theorem canonical_ofFloat (x : Float) : Canonical (ofFloat x).mantissa (ofFloat x).exponent := by
  obtain ⟨hlt, hleast, hfull⟩ := normal_ofFloat x
  exact ⟨hlt, hleast, hfull⟩

/-- The whole part of a bounded double is bounded. -/
theorem Within.natAbs_truncate_lt {x : Float} {k : Nat} (h : Within k x) :
    (ofFloat x).truncate.natAbs < 2 ^ k := by
  have hwhole : (ofFloat x).ratio.1 / (ofFloat x).ratio.2 < 2 ^ k := by
    unfold ratio
    rcases unpack_of_isFinite h.isFinite with ⟨-, hzero⟩ | ⟨s, pos, hunpack⟩
    · split <;> simp [hzero]
    · have hsmall : Small k x.toModel.unpack := h
      rw [hunpack] at hsmall
      have htotal := hsmall.2
      rw [totalExponent] at htotal
      generalize (ofFloat x).mantissa = m at *
      generalize (ofFloat x).exponent = e at *
      -- Shifted to the left the number keeps its digits, to the right it loses the last ones.
      split
      · change m * 2 ^ e.toNat / 1 < 2 ^ k
        rw [Nat.div_one, ← Nat.shiftLeft_eq, ← Nat.log2_lt (shiftLeft_ne_zero pos _),
          log2_shiftLeft pos.ne']
        omega
      · change m / 2 ^ (-e).toNat < 2 ^ k
        apply div_lt_of_log2
        omega
  unfold truncate
  dsimp only
  split
  · rwa [Int.natAbs_neg, Int.natAbs_natCast]
  · rwa [Int.natAbs_natCast]

/-- The largest whole number that is not above a bounded double is bounded. -/
theorem Within.natAbs_floor_le {x : Float} {k : Nat} (h : Within k x) :
    (ofFloat x).floor.natAbs ≤ 2 ^ k := by
  have htruncate := h.natAbs_truncate_lt
  unfold floor
  split <;> omega

/-! ### Comparing -/

/-- The form of a number between two that differ in their sign only. -/
theorem exponent_le_of_between {y : UnpackedFloat} {m : Nat} {e : Int} {pos : 0 < m}
    (hlow : UnpackedFloat.le (.finite .negative m e pos) y = true)
    (hhigh : UnpackedFloat.le y (.finite .positive m e pos) = true) :
    (∃ s, y = .zero s) ∨ ∃ s m' e' pos', y = .finite s m' e' pos' ∧ e' ≤ e := by
  cases y with
  | zero s => exact Or.inl ⟨s, rfl⟩
  | notANumber => cases hhigh
  | infinity s =>
    cases s with
    | positive => cases hhigh
    | negative => cases hlow
  | finite s m' e' pos' =>
    refine Or.inr ⟨s, m', e', pos', rfl, Int.not_lt.mp fun hlt => ?_⟩
    -- The exponents are compared first, in the order that the sign says.
    cases s with
    | positive =>
      change ((compare e' e).then (compare m' m)).isLE = true at hhigh
      rw [Int.compare_eq_gt.mpr hlt] at hhigh
      cases hhigh
    | negative =>
      change (((compare e e').then (compare m m')).swap).isLE = true at hlow
      rw [Int.compare_eq_lt.mpr hlt] at hlow
      cases hlow

/-- A double between `-1100` and `1100`. -/
theorem within_of_between {y : Float} (hlow : (-1100.0 : Float) ≤ y)
    (hhigh : y ≤ (1100.0 : Float)) : Within 11 y := by
  -- The mantissa is eleven hundred times two to the power of forty-two.
  have hbound : (1100.0 : Float).toModel.unpack =
      .finite .positive 4837851162214400 (-42) (by decide) := by rfl
  have hnegated : (-1100.0 : Float).toModel.unpack =
      .finite .negative 4837851162214400 (-42) (by decide) := by rfl
  have hbelow : UnpackedFloat.le y.toModel.unpack (1100.0 : Float).toModel.unpack = true :=
    of_decide_eq_true hhigh
  have habove : UnpackedFloat.le (-1100.0 : Float).toModel.unpack y.toModel.unpack = true :=
    of_decide_eq_true hlow
  rw [hbound] at hbelow
  rw [hnegated] at habove
  have hform := exponent_le_of_between habove hbelow
  have hfinite : isFinite y = true := by
    rw [← Bool.not_eq_false]
    intro hinfinite
    rcases unpack_of_not_isFinite hinfinite with ⟨s, hunpack⟩ | hunpack <;>
      rw [hunpack] at hform <;>
      rcases hform with ⟨_, h⟩ | ⟨_, _, _, _, h, -⟩ <;>
      cases h
  have hcanonical := canonical_ofFloat y
  rw [Within]
  rcases unpack_of_isFinite hfinite with ⟨⟨s, hunpack⟩, -⟩ | ⟨s, pos, hunpack⟩
  · rw [hunpack]
    trivial
  · rw [hunpack] at hform ⊢
    rcases hform with ⟨_, h⟩ | ⟨_, _, _, _, h, hle⟩
    · cases h
    · injection h with _ _ hexponent
      have hlog := (Nat.log2_lt pos.ne').mpr hcanonical.lt
      refine ⟨hcanonical, ?_⟩
      rw [totalExponent]
      omega

end CodeMetrics.Binary
