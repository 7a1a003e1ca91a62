import CodeMetrics.Decimal.Shortest
import Mathlib.Algebra.Order.Field.Power
import Mathlib.Data.Rat.Cast.Order
import Mathlib.Tactic.FieldSimp
import Mathlib.Tactic.Linarith
import Mathlib.Tactic.NormNum
import Mathlib.Tactic.Positivity
import Mathlib.Tactic.Ring

/-!
# `CodeMetrics.Proofs.Decimal.Shortest`: a double is given by its shortest decimal

The shortest decimal of a double rounds to the double (`rounds_shortest`). The search for it ends
in time, since on the grid with seventeen digits one of the neighbours of the exact value is near
enough (`onGrid_isSome`). A decimal rounds to one double only (`eq_of_rounds`). So doubles with
shortest decimals of the same value are the same.

Everything is said in rational numbers here. `Binary.Rounds b v` says that the number `v` rounds to
the double `b`.
-/

set_option autoImplicit false

namespace CodeMetrics

/-! ### Powers -/

theorem tenTo_eq (n : Nat) : ((tenTo n : Nat) : ℚ) = 10 ^ n := by
  rw [tenTo, Nat.pow_eq, Nat.cast_pow, Nat.cast_ofNat]

theorem twoTo_eq (n : Nat) : ((twoTo n : Nat) : ℚ) = 2 ^ n := by
  rw [twoTo, Nat.pow_eq, Nat.cast_pow, Nat.cast_ofNat]

theorem tenTo_pos (n : Nat) : 0 < tenTo n := Nat.pow_pos (by decide)

theorem twoTo_pos (n : Nat) : 0 < twoTo n := Nat.pow_pos (by decide)

/-- A power that is not negative is a whole number. -/
theorem zpow_of_nonneg {x : ℚ} {e : ℤ} (h : 0 ≤ e) : x ^ e = x ^ e.toNat := by
  rw [← zpow_natCast, Int.toNat_of_nonneg h]

/-- A negative power is one part of a whole number. -/
theorem zpow_of_neg {x : ℚ} {e : ℤ} (h : ¬0 ≤ e) : x ^ e = (x ^ (-e).toNat)⁻¹ := by
  rw [← zpow_natCast, Int.toNat_of_nonneg (by omega), ← zpow_neg, neg_neg]

namespace Decimal

/-- The number that a decimal stands for. -/
def value (d : Decimal) : ℚ :=
  d.digits * 10 ^ d.exponent

/-- Moving zeros into the exponent keeps the number. -/
theorem value_trim (d : Decimal) : d.trim.value = d.value := by
  have hgo : ∀ (fuel : Nat) (d : Decimal), (trim.go fuel d).value = d.value := by
    intro fuel
    induction fuel with
    | zero => intro d; rfl
    | succ fuel ih =>
      intro d
      rw [trim.go]
      split
      · rename_i hzero
        have hdigits : (d.digits : ℚ) = (d.digits / 10 : Nat) * 10 := by
          exact_mod_cast (Nat.div_mul_cancel (Nat.dvd_of_mod_eq_zero hzero)).symm
        rw [ih, value, value, hdigits, zpow_add₀ (by norm_num)]
        ring
      · rfl
  exact hgo _ d

end Decimal

/-! ### Rounding -/

namespace Binary

/-- The number that a double stands for, without its sign. -/
def value (b : Binary) : ℚ :=
  b.mantissa * 2 ^ b.exponent

/-- The part of the gap below a double that still rounds to it, in units of the gap above. -/
def below (b : Binary) : ℚ :=
  if b.mantissa = twoTo 52 ∧ leastExponent < b.exponent then 1 / 4 else 1 / 2

/-- Whether a number rounds to a double. -/
def Rounds (b : Binary) (v : ℚ) : Prop :=
  let low : ℚ := (b.mantissa - b.below) * 2 ^ b.exponent
  let high : ℚ := (b.mantissa + 1 / 2) * 2 ^ b.exponent
  if b.mantissa % 2 = 0 then low ≤ v ∧ v ≤ high else low < v ∧ v < high

/-- A number strictly between the bounds rounds to the double. -/
theorem rounds_of_lt {b : Binary} {v : ℚ} (hlow : (b.mantissa - b.below) * 2 ^ b.exponent < v)
    (hhigh : v < (b.mantissa + 1 / 2) * 2 ^ b.exponent) : b.Rounds v := by
  unfold Rounds
  split
  · exact ⟨hlow.le, hhigh.le⟩
  · exact ⟨hlow, hhigh⟩

/-- A number that rounds to a double is between the bounds. -/
theorem Rounds.between {b : Binary} {v : ℚ} (h : b.Rounds v) :
    (b.mantissa - b.below) * 2 ^ b.exponent ≤ v ∧ v ≤ (b.mantissa + 1 / 2) * 2 ^ b.exponent := by
  unfold Rounds at h
  split at h
  · exact h
  · exact ⟨h.1.le, h.2.le⟩

/-- Only a double with an even mantissa takes its bounds. -/
theorem Rounds.lt_of_odd {b : Binary} {v : ℚ} (h : b.Rounds v) (hodd : b.mantissa % 2 ≠ 0) :
    (b.mantissa - b.below) * 2 ^ b.exponent < v ∧ v < (b.mantissa + 1 / 2) * 2 ^ b.exponent := by
  unfold Rounds at h
  rwa [if_neg hodd] at h

theorem below_le (b : Binary) : b.below ≤ 1 / 2 := by
  unfold below
  split <;> norm_num

theorem below_pos (b : Binary) : 0 < b.below := by
  unfold below
  split <;> norm_num

/-- Mantissas take at most 53 bits, and fewer only for the least exponent. -/
structure Normal (b : Binary) : Prop where
  mantissa_lt : b.mantissa < twoTo 53
  least_le : leastExponent ≤ b.exponent
  mantissa_ge : leastExponent < b.exponent → twoTo 52 ≤ b.mantissa

/-- What a double is made of. -/
theorem normal_ofFloat (x : Float) : (ofFloat x).Normal := by
  have h52 : twoTo 52 = 4503599627370496 := by decide
  have h53 : twoTo 53 = 9007199254740992 := by decide
  have hfraction : x.toBits.toNat % twoTo 52 < twoTo 52 := Nat.mod_lt _ (twoTo_pos 52)
  unfold ofFloat leastExponent
  refine ⟨?_, ?_, ?_⟩
  all_goals
    dsimp only [leastExponent]
    split
  all_goals omega

/-- A double is given by its sign, its mantissa and its exponent. -/
theorem ofFloat_injective {x y : Float} (h : ofFloat x = ofFloat y) : x = y := by
  have hbits : x.toBits.toNat = y.toBits.toNat := by
    have h52 : twoTo 52 = 4503599627370496 := by decide
    have h11 : twoTo 11 = 2048 := by decide
    have h63 : twoTo 63 = 9223372036854775808 := by decide
    have hx := x.toBits.toNat_lt
    have hy := y.toBits.toNat_lt
    unfold ofFloat leastExponent at h
    -- The fields are the quotients and remainders of the bits, so they give all of the bits back.
    obtain ⟨hsign, hmantissa, hexponent⟩ := Binary.mk.inj h
    have hhalf : x.toBits.toNat / twoTo 63 = 1 ↔ y.toBits.toNat / twoTo 63 = 1 := by
      rw [← beq_iff_eq, hsign, beq_iff_eq]
    rw [h52, h11] at hmantissa hexponent
    rw [h63] at hhalf
    split_ifs at hmantissa hexponent
    all_goals omega
  have hmodel : x.toModel.toBits = y.toModel.toBits := UInt64.toNat_inj.mp hbits
  obtain ⟨⟨bits, valid⟩⟩ := x
  obtain ⟨⟨bits', valid'⟩⟩ := y
  cases hmodel
  rfl

/-- Numbers that round to a double with a smaller mantissa are smaller. -/
theorem not_rounds_of_mantissa_lt {b c : Binary} {v : ℚ} (hexponent : b.exponent = c.exponent)
    (hlt : b.mantissa < c.mantissa) (hb : b.Rounds v) (hc : c.Rounds v) : False := by
  have hgap : (0 : ℚ) < 2 ^ b.exponent := by positivity
  have hbelow := c.below_le
  have hstep : (b.mantissa : ℚ) + 1 ≤ c.mantissa := by exact_mod_cast hlt
  have hhigh := hb.between.2
  have hlow := hc.between.1
  rw [← hexponent] at hlow
  have hmeet : ((b.mantissa : ℚ) + 1 / 2) * 2 ^ b.exponent ≤
      (c.mantissa - c.below) * 2 ^ b.exponent :=
    mul_le_mul_of_nonneg_right (by linarith) hgap.le
  -- One of two numbers in a row is odd, so one of the doubles does not take the common bound.
  by_cases hodd : b.mantissa % 2 = 0
  · by_cases hnext : c.mantissa = b.mantissa + 1
    · have := (hc.lt_of_odd (by omega)).1
      rw [← hexponent] at this
      linarith
    · have hfar : (b.mantissa : ℚ) + 2 ≤ c.mantissa := by
        exact_mod_cast (by omega : b.mantissa + 2 ≤ c.mantissa)
      have : ((b.mantissa : ℚ) + 1 / 2) * 2 ^ b.exponent <
          (c.mantissa - c.below) * 2 ^ b.exponent :=
        mul_lt_mul_of_pos_right (by linarith) hgap
      linarith
  · have := (hb.lt_of_odd hodd).2
    linarith

/-- Numbers that round to a double with a smaller exponent are smaller. -/
theorem not_rounds_of_exponent_lt {b c : Binary} {v : ℚ} (hbnormal : b.Normal)
    (hcnormal : c.Normal) (hlt : b.exponent < c.exponent) (hb : b.Rounds v) (hc : c.Rounds v) :
    False := by
  have hgap : (0 : ℚ) < 2 ^ b.exponent := by positivity
  have hleast : leastExponent < c.exponent := lt_of_le_of_lt hbnormal.least_le hlt
  have hlarge := hcnormal.mantissa_ge hleast
  have hsmall := hbnormal.mantissa_lt
  have h52 : twoTo 52 = 4503599627370496 := by decide
  have h53 : twoTo 53 = 9007199254740992 := by decide
  have hdouble : (2 : ℚ) * 2 ^ b.exponent ≤ 2 ^ c.exponent := by
    rw [← zpow_one_add₀ (by norm_num)]
    exact zpow_le_zpow_right₀ (by norm_num) (by omega)
  -- The bound below the larger double is at least the one above the smaller.
  have hreach : (9007199254740992 - 1 / 2) * 2 ^ b.exponent ≤
      (c.mantissa - c.below) * 2 ^ c.exponent := by
    have hfactor : (9007199254740992 - 1 / 2) / 2 ≤ (c.mantissa : ℚ) - c.below := by
      by_cases hfirst : c.mantissa = twoTo 52
      · rw [below, if_pos ⟨hfirst, hleast⟩, hfirst, twoTo_eq]
        norm_num
      · have hbelow := c.below_le
        have : (4503599627370496 : ℚ) + 1 ≤ c.mantissa := by
          exact_mod_cast (by omega : 4503599627370496 + 1 ≤ c.mantissa)
        linarith
    calc (9007199254740992 - 1 / 2) * (2 : ℚ) ^ b.exponent
        = (9007199254740992 - 1 / 2) / 2 * (2 * 2 ^ b.exponent) := by ring
      _ ≤ (c.mantissa - c.below) * 2 ^ c.exponent :=
        mul_le_mul hfactor hdouble (by positivity) (le_trans (by norm_num) hfactor)
  have hlow := hc.between.1
  by_cases hlast : b.mantissa = 9007199254740991
  · have := (hb.lt_of_odd (by omega)).2
    rw [hlast] at this
    norm_num at this hreach
    linarith
  · have hstep : (b.mantissa : ℚ) + 1 ≤ 9007199254740991 := by
      exact_mod_cast (by omega : b.mantissa + 1 ≤ 9007199254740991)
    have : ((b.mantissa : ℚ) + 1 / 2) * 2 ^ b.exponent <
        (9007199254740992 - 1 / 2) * 2 ^ b.exponent :=
      mul_lt_mul_of_pos_right (by linarith) hgap
    linarith [hb.between.2]

/-- A number rounds to one double only. -/
theorem eq_of_rounds {b c : Binary} {v : ℚ} (hbnormal : b.Normal) (hcnormal : c.Normal)
    (hb : b.Rounds v) (hc : c.Rounds v) :
    b.mantissa = c.mantissa ∧ b.exponent = c.exponent := by
  have hexponent : b.exponent = c.exponent := by
    rcases lt_trichotomy b.exponent c.exponent with hlt | heq | hlt
    · exact (not_rounds_of_exponent_lt hbnormal hcnormal hlt hb hc).elim
    · exact heq
    · exact (not_rounds_of_exponent_lt hcnormal hbnormal hlt hc hb).elim
  rcases lt_trichotomy b.mantissa c.mantissa with hlt | heq | hlt
  · exact (not_rounds_of_mantissa_lt hexponent hlt hb hc).elim
  · exact ⟨heq, hexponent⟩
  · exact (not_rounds_of_mantissa_lt hexponent.symm hlt hc hb).elim

end Binary

/-! ### The search -/

namespace Decimal

/-- What the search asks of a decimal, in terms of the number it stands for. -/
theorem Rounding.admits_iff (r : Rounding) (d : Decimal) :
    r.admits d ↔
      if r.closed then (r.low : ℚ) ≤ d.value * r.scale ∧ d.value * r.scale ≤ r.high
      else (r.low : ℚ) < d.value * r.scale ∧ d.value * r.scale < r.high := by
  unfold admits
  dsimp only
  -- The search compares `num / den` with the bounds by cross-multiplication, to stay within the
  -- natural numbers.
  generalize hnum : (if 0 ≤ d.exponent then d.digits * tenTo d.exponent.toNat * r.scale
    else d.digits * r.scale) = num
  generalize hden : (if 0 ≤ d.exponent then 1 else tenTo (-d.exponent).toNat) = den
  have hpos : (0 : ℚ) < den := by
    have := tenTo_pos (-d.exponent).toNat
    rw [← hden]
    split
    · norm_num
    · exact_mod_cast this
  have hratio : (num : ℚ) = d.value * r.scale * den := by
    rw [← hnum, ← hden, Decimal.value]
    split
    · rename_i h
      rw [zpow_of_nonneg h]
      push_cast
      rw [tenTo_eq]
      ring
    · rename_i h
      rw [zpow_of_neg h]
      push_cast
      rw [tenTo_eq]
      field_simp
  have hle : ∀ n : Nat, n * den ≤ num ↔ (n : ℚ) ≤ d.value * r.scale := by
    intro n
    rw [← Nat.cast_le (α := ℚ), hratio, Nat.cast_mul]
    exact mul_le_mul_iff_left₀ hpos
  have hge : ∀ n : Nat, num ≤ n * den ↔ d.value * r.scale ≤ (n : ℚ) := by
    intro n
    rw [← Nat.cast_le (α := ℚ), hratio, Nat.cast_mul]
    exact mul_le_mul_iff_left₀ hpos
  have hlt : ∀ n : Nat, n * den < num ↔ (n : ℚ) < d.value * r.scale := by
    intro n
    rw [← not_le, hge, not_le]
  have hgt : ∀ n : Nat, num < n * den ↔ d.value * r.scale < (n : ℚ) := by
    intro n
    rw [← not_le, hle, not_le]
  cases r.closed with
  | true => simp [hle, hge]
  | false => simp [hlt, hgt]

section

variable {b : Binary} (hpos : 0 < b.mantissa)

/-- The scale is not zero. -/
theorem Rounding.scale_pos (b : Binary) : (0 : ℚ) < (of b).scale := by
  unfold of
  dsimp only
  have := twoTo_pos (-b.exponent).toNat
  split
  · norm_num
  · exact_mod_cast (by omega : 0 < 4 * twoTo (-b.exponent).toNat)

/-- A multiple of a quarter of the gap, as it is written in the bounds. -/
theorem Rounding.quarters_eq (b : Binary) (quarters : Nat) :
    ((quarters * (if 0 ≤ b.exponent then twoTo b.exponent.toNat else 1) : Nat) : ℚ) =
      quarters / 4 * 2 ^ b.exponent * (of b).scale := by
  unfold of
  dsimp only
  split
  · rename_i h
    rw [zpow_of_nonneg h]
    push_cast
    rw [twoTo_eq]
    ring
  · rename_i h
    rw [zpow_of_neg h]
    push_cast
    rw [twoTo_eq]
    field_simp

include hpos in
/-- The bound below. -/
theorem Rounding.low_eq :
    ((of b).low : ℚ) = (b.mantissa - b.below) * 2 ^ b.exponent * (of b).scale := by
  have hquarters : (((4 * b.mantissa - if b.mantissa = twoTo 52 ∧
      Binary.leastExponent < b.exponent then 1 else 2 : Nat) : ℚ)) / 4 = b.mantissa - b.below := by
    unfold Binary.below
    split
    · rw [Nat.cast_sub (by omega)]
      push_cast
      ring
    · rw [Nat.cast_sub (by omega)]
      push_cast
      ring
  rw [← hquarters, ← quarters_eq]
  rfl

/-- The bound above. -/
theorem Rounding.high_eq :
    ((of b).high : ℚ) = (b.mantissa + 1 / 2) * 2 ^ b.exponent * (of b).scale := by
  have hquarters : ((4 * b.mantissa + 2 : Nat) : ℚ) / 4 = b.mantissa + 1 / 2 := by
    push_cast
    ring
  rw [← hquarters, ← quarters_eq]
  rfl

/-- The double itself. -/
theorem Rounding.value_eq : ((of b).value : ℚ) = b.value * (of b).scale := by
  have hquarters : ((4 * b.mantissa : Nat) : ℚ) / 4 = b.mantissa := by
    push_cast
    ring
  rw [Binary.value, ← hquarters, ← quarters_eq]
  rfl

include hpos in
/-- The search admits what rounds to the double. -/
theorem Rounding.admits_of_iff (d : Decimal) : (of b).admits d ↔ b.Rounds d.value := by
  have hscale := scale_pos b
  have hclosed : (of b).closed = (b.mantissa % 2 == 0) := rfl
  rw [admits_iff, low_eq hpos, high_eq, hclosed, Binary.Rounds]
  simp only [mul_le_mul_iff_left₀ hscale, mul_lt_mul_iff_left₀ hscale, beq_iff_eq]

end

/-- What is found on a grid is admitted. -/
theorem Rounding.admits_of_onGrid {r : Rounding} {exponent : Int} {d : Decimal}
    (h : r.onGrid exponent = some d) : r.admits d := by
  have hneighbour : ∀ num den : Nat, Binary.roundRatio num den = num / den ∨
      Binary.roundRatio num den = num / den + 1 := by
    intro num den
    unfold Binary.roundRatio
    dsimp only
    split_ifs
    all_goals simp
  unfold onGrid at h
  dsimp only at h
  -- If both neighbours are admitted the nearer one is taken, which is one of the two.
  split at h
  · rename_i hbelow habove
    obtain rfl := Option.some.inj h
    rcases hneighbour _ _ with heq | heq
    · rw [heq]
      exact hbelow
    · rw [heq]
      exact habove
  · rename_i hbelow _
    obtain rfl := Option.some.inj h
    exact hbelow
  · rename_i _ habove
    obtain rfl := Option.some.inj h
    exact habove
  · cases h

/-- If one of the next grids has an admitted decimal, one is found. -/
theorem Rounding.admits_search {r : Rounding} {fuel k : Nat} {exponent : Int} (hk : k < fuel)
    (h : (r.onGrid (exponent - k)).isSome) : r.admits (r.search fuel exponent) := by
  induction fuel generalizing k exponent with
  | zero => omega
  | succ fuel ih =>
    rw [search]
    split
    · rename_i d hd
      exact admits_of_onGrid hd
    · rename_i hnone
      cases k with
      | zero =>
        rw [Int.natCast_zero, Int.sub_zero, hnone] at h
        cases h
      | succ k =>
        refine ih (k := k) (by omega) ?_
        have hstep : exponent - 1 - (k : Int) = exponent - ((k + 1 : Nat) : Int) := by omega
        rw [hstep]
        exact h

/-- The neighbours of a number on a grid. -/
theorem Rounding.onGrid_isSome {r : Rounding} {exponent : Int} (hscale : 0 < r.scale)
    (h : ∀ below above : Decimal, below.exponent = exponent → above.exponent = exponent →
      below.value * r.scale ≤ r.value → r.value < above.value * r.scale →
      above.value = below.value + 10 ^ exponent → r.admits below ∨ r.admits above) :
    (r.onGrid exponent).isSome := by
  unfold onGrid
  dsimp only
  -- In steps of the grid the number is `num / den`, so the quotient and its successor are the
  -- neighbours.
  generalize hnum : (if 0 ≤ exponent then r.value else r.value * tenTo (-exponent).toNat) = num
  generalize hden : (if 0 ≤ exponent then r.scale * tenTo exponent.toNat else r.scale) = den
  have hpos : 0 < den := by
    rw [← hden]
    split
    · exact Nat.mul_pos hscale (tenTo_pos _)
    · exact hscale
  have hratio : (r.value : ℚ) * den = num * (10 ^ exponent * r.scale) := by
    rw [← hnum, ← hden]
    split
    · rename_i hexp
      rw [zpow_of_nonneg hexp]
      push_cast
      rw [tenTo_eq]
      ring
    · rename_i hexp
      rw [zpow_of_neg hexp]
      push_cast
      rw [tenTo_eq]
      field_simp
  have hlow : ((num / den : Nat) : ℚ) * den ≤ num := by
    exact_mod_cast Nat.div_mul_le_self num den
  have hhigh : (num : ℚ) < ((num / den + 1 : Nat) : ℚ) * den := by
    exact_mod_cast Nat.lt_mul_of_div_lt (Nat.lt_succ_self _) hpos
  have hstep : (0 : ℚ) < 10 ^ exponent * r.scale := by
    have : (0 : ℚ) < r.scale := by exact_mod_cast hscale
    positivity
  have hden' : (0 : ℚ) < den := by exact_mod_cast hpos
  have hneighbours := h ⟨num / den, exponent⟩ ⟨num / den + 1, exponent⟩ rfl rfl ?_ ?_ ?_
  · rcases hneighbours with hbelow | habove
    · rw [hbelow]
      cases r.admits ⟨num / den + 1, exponent⟩ <;> rfl
    · rw [habove]
      cases r.admits ⟨num / den, exponent⟩ <;> rfl
  -- The bounds are those of the division, for one step of the grid.
  · refine le_of_mul_le_mul_right ?_ hden'
    rw [hratio, Decimal.value]
    calc ((num / den : Nat) : ℚ) * 10 ^ exponent * r.scale * den
        = ((num / den : Nat) : ℚ) * den * (10 ^ exponent * r.scale) := by ring
      _ ≤ num * (10 ^ exponent * r.scale) := mul_le_mul_of_nonneg_right hlow hstep.le
  · refine lt_of_mul_lt_mul_right ?_ hden'.le
    rw [hratio, Decimal.value]
    calc (num : ℚ) * (10 ^ exponent * r.scale)
        < ((num / den + 1 : Nat) : ℚ) * den * (10 ^ exponent * r.scale) :=
          mul_lt_mul_of_pos_right hhigh hstep
      _ = ((num / den + 1 : Nat) : ℚ) * 10 ^ exponent * r.scale * den := by ring
  · rw [Decimal.value, Decimal.value]
    push_cast
    ring

/-! ### Seventeen digits -/

/-- A number has as many digits as its size takes. -/
theorem pow_length_le {n : Nat} (h : 0 < n) : 10 ^ (length n - 1) ≤ n := by
  have hlength : 0 < length n := Nat.length_toDigits_pos
  by_cases hone : length n = 1
  · rw [hone]
    exact h
  · by_contra hlt
    have := (Nat.length_toDigits_le_iff (b := 10) (n := n) (by decide)
      (by omega : 0 < length n - 1)).mpr (by omega)
    have hle : length n ≤ length n - 1 := this
    omega

theorem lt_pow_length (n : Nat) : n < 10 ^ length n :=
  (Nat.length_toDigits_le_iff (by decide) Nat.length_toDigits_pos).mp le_rfl

/-- The leading digit is not behind the number. -/
theorem leadingPower_le {num : Nat} (hnum : 0 < num) (den : Nat) :
    (10 : ℚ) ^ leadingPower num den * den ≤ num := by
  unfold leadingPower
  dsimp only
  generalize hguess : (length num : Int) - length den = guess
  -- The lengths give the power up to one, and one less is always low enough.
  have hless : (10 : ℚ) ^ (guess - 1) * den ≤ num := by
    have hlow : (10 : ℚ) ^ (length num - 1) ≤ num := by exact_mod_cast pow_length_le hnum
    have hhigh : (den : ℚ) < 10 ^ length den := by exact_mod_cast lt_pow_length den
    have hlength : 0 < length num := Nat.length_toDigits_pos
    calc (10 : ℚ) ^ (guess - 1) * den
        ≤ 10 ^ (guess - 1) * 10 ^ length den :=
          mul_le_mul_of_nonneg_left hhigh.le (by positivity)
      _ = 10 ^ (length num - 1) := by
          rw [← zpow_natCast, ← zpow_natCast, ← zpow_add₀ (by norm_num)]
          congr 1
          omega
      _ ≤ num := hlow
  split_ifs with hsign hreached hreached
  · rw [zpow_of_nonneg hsign, mul_comm, ← tenTo_eq]
    exact_mod_cast hreached
  · exact hless
  · rw [zpow_of_neg hsign, inv_mul_le_iff₀ (by positivity), mul_comm, ← tenTo_eq]
    exact_mod_cast hreached
  · exact hless

/-- On the grid with seventeen digits a neighbour of a double rounds to it. -/
theorem onGrid_of_seventeen {b : Binary} (hnormal : b.Normal) (hpos : 0 < b.mantissa) :
    ((Rounding.of b).onGrid
      (leadingPower (Rounding.of b).value (Rounding.of b).scale - (16 : Nat))).isSome := by
  have hscale := Rounding.scale_pos b
  have hvalue : ((Rounding.of b).value : ℚ) = b.value * (Rounding.of b).scale := Rounding.value_eq
  have hgap : (0 : ℚ) < 2 ^ b.exponent := by positivity
  have hvaluePos : 0 < b.value := mul_pos (by exact_mod_cast hpos) hgap
  have hnum : 0 < (Rounding.of b).value := by exact_mod_cast hvalue ▸ mul_pos hvaluePos hscale
  have hleading := leadingPower_le hnum (Rounding.of b).scale
  generalize leadingPower (Rounding.of b).value (Rounding.of b).scale = power at *
  rw [hvalue, mul_le_mul_iff_left₀ hscale] at hleading
  have hgrid : (10 : ℚ) ^ (power - (16 : Nat)) * 10 ^ 16 ≤ b.mantissa * 2 ^ b.exponent := by
    rw [← zpow_natCast, ← zpow_add₀ (by norm_num), Int.sub_add_cancel]
    exact hleading
  refine Rounding.onGrid_isSome (by exact_mod_cast hscale)
    fun below above _ _ hbelow habove hnext => ?_
  rw [hvalue, mul_le_mul_iff_left₀ hscale] at hbelow
  rw [hvalue, mul_lt_mul_iff_left₀ hscale] at habove
  rw [Rounding.admits_of_iff hpos, Rounding.admits_of_iff hpos]
  unfold Binary.value at hbelow habove
  generalize (10 : ℚ) ^ (power - (16 : Nat)) = step at *
  have h53 : twoTo 53 = 9007199254740992 := by decide
  by_cases hfirst : b.mantissa = twoTo 52 ∧ Binary.leastExponent < b.exponent
  · -- The gap below is only half as wide, and so is a step of the grid.
    have hmantissa : (b.mantissa : ℚ) = 4503599627370496 := by
      rw [hfirst.1, twoTo_eq]
      norm_num
    have hquarter := b.below_pos
    rw [hmantissa] at hgrid
    refine .inr (Binary.rounds_of_lt (lt_of_le_of_lt ?_ habove) ?_)
    · exact mul_le_mul_of_nonneg_right (by linarith) hgap.le
    · rw [hmantissa] at hbelow ⊢
      linarith
  · have hhalf : b.below = 1 / 2 := if_neg hfirst
    have hmantissa : (b.mantissa : ℚ) ≤ 9007199254740992 := by
      exact_mod_cast (by have := hnormal.mantissa_lt; omega : b.mantissa ≤ 9007199254740992)
    have hwide : (b.mantissa : ℚ) * 2 ^ b.exponent ≤ 9007199254740992 * 2 ^ b.exponent :=
      mul_le_mul_of_nonneg_right hmantissa hgap.le
    by_cases hnear : (b.mantissa - b.below) * 2 ^ b.exponent < below.value
    · exact .inl (Binary.rounds_of_lt hnear (by linarith))
    · rw [hhalf] at hnear
      refine .inr (Binary.rounds_of_lt (lt_of_le_of_lt ?_ habove) ?_)
      · rw [hhalf]
        linarith
      · linarith

/-- The shortest decimal of a double rounds to the double. -/
theorem rounds_shortest {b : Binary} (hnormal : b.Normal) (hpos : 0 < b.mantissa) :
    b.Rounds (shortest b).value := by
  unfold shortest
  rw [if_neg (by omega)]
  dsimp only
  rw [value_trim, ← Rounding.admits_of_iff hpos]
  exact Rounding.admits_search (by decide) (onGrid_of_seventeen hnormal hpos)

/-- The shortest decimal of a number that is not zero is not zero. -/
theorem shortest_pos {b : Binary} (hnormal : b.Normal) (hpos : 0 < b.mantissa) :
    0 < (shortest b).value := by
  have hmantissa : (1 : ℚ) ≤ b.mantissa := by exact_mod_cast hpos
  have hbelow := b.below_le
  have hlow : 0 < (b.mantissa - b.below) * (2 : ℚ) ^ b.exponent :=
    mul_pos (by linarith) (by positivity)
  exact lt_of_lt_of_le hlow (rounds_shortest hnormal hpos).between.1

/-- Shortest decimals of the same value belong to the same double. -/
theorem eq_of_shortest {b c : Binary} (hb : b.Normal) (hc : c.Normal)
    (h : (shortest b).value = (shortest c).value) :
    b.mantissa = c.mantissa ∧ b.exponent = c.exponent := by
  have hzero : ∀ {b : Binary}, b.Normal → b.mantissa = 0 →
      (shortest b).value = 0 ∧ b.exponent = Binary.leastExponent := by
    intro b hb hmantissa
    refine ⟨?_, ?_⟩
    · rw [shortest, if_pos hmantissa, value, Nat.cast_zero, zero_mul]
    · by_contra hexponent
      have := hb.mantissa_ge (lt_of_le_of_ne hb.least_le (Ne.symm hexponent))
      have := twoTo_pos 52
      omega
  -- Zero is written without a search, so it is compared with the others by value.
  rcases Nat.eq_zero_or_pos b.mantissa with hb0 | hbpos
  · obtain ⟨hbvalue, hbexponent⟩ := hzero hb hb0
    rcases Nat.eq_zero_or_pos c.mantissa with hc0 | hcpos
    · exact ⟨hb0.trans hc0.symm, hbexponent.trans (hzero hc hc0).2.symm⟩
    · exact absurd (h.symm.trans hbvalue) (shortest_pos hc hcpos).ne'
  · rcases Nat.eq_zero_or_pos c.mantissa with hc0 | hcpos
    · exact absurd (h.trans (hzero hc hc0).1) (shortest_pos hb hbpos).ne'
    · exact Binary.eq_of_rounds hb hc (rounds_shortest hb hbpos) (h ▸ rounds_shortest hc hcpos)

end Decimal

end CodeMetrics
