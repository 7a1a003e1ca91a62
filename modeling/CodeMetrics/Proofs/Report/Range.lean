import CodeMetrics.Measure
import CodeMetrics.Proofs.Decimal.Nearest

/-!
# `CodeMetrics.Proofs.Report.Range`: calculations that stay in range

The formulas of a report may fail in three ways: a number gets too large, a divisor is zero, or
something that is no number is to be rounded. `Safe fits P r` says of a result `r` that it is not
a division by zero, and that it is there and has the property `P` if `fits` holds. So one walk
through the formulas shows both that they never divide by zero and that they succeed on counts
that are not absurdly large.

`Number.Within k` bounds a number by `2 ^ k`. Every operation has a lemma that says how the bound
grows.
-/

set_option autoImplicit false

namespace CodeMetrics

/-! ### Results that are there if the counts fit -/

/-- A result that is not a division by zero. If `fits` holds, it is there and has the
property `P`. -/
inductive Safe {α : Type} (fits : Prop) (P : α → Prop) : Except ArithmeticFault α → Prop
  | ok {a : α} (h : fits → P a) : Safe fits P (.ok a)
  | error {fault : ArithmeticFault} (hfault : fault ≠ .divisionByZero) (hlarge : ¬fits) :
      Safe fits P (.error fault)

namespace Safe

variable {α β : Type} {fits : Prop} {P Q : α → Prop} {r : Except ArithmeticFault α}

/-- Going on with a value. -/
theorem bind {P : α → Prop} {Q : β → Prop} {f : α → Except ArithmeticFault β}
    (h : Safe fits P r) (hf : ∀ a, (fits → P a) → Safe fits Q (f a)) : Safe fits Q (r >>= f) := by
  cases h with
  | ok h => exact hf _ h
  | error hfault hlarge => exact .error hfault hlarge

/-- So it is with a weaker property. -/
theorem mono (h : Safe fits P r) (hPQ : ∀ a, P a → Q a) : Safe fits Q r := by
  cases h with
  | ok h => exact .ok fun hfits => hPQ _ (h hfits)
  | error hfault hlarge => exact .error hfault hlarge

/-- What else is known of a result that is there. -/
theorem and (h : Safe fits P r) (hQ : ∀ a, r = .ok a → fits → Q a) :
    Safe fits (fun a => P a ∧ Q a) r := by
  cases h with
  | ok h => exact .ok fun hfits => ⟨h hfits, hQ _ rfl hfits⟩
  | error hfault hlarge => exact .error hfault hlarge

/-- A result is there, or the counts do not fit. -/
theorem exists_or (h : Safe fits P r) :
    (∃ a, r = .ok a) ∨ ¬fits ∧ ∃ fault, fault ≠ .divisionByZero ∧ r = .error fault := by
  cases h with
  | ok h => exact .inl ⟨_, rfl⟩
  | error hfault hlarge => exact .inr ⟨hlarge, _, hfault, rfl⟩

/-- One result for each item of a list. -/
theorem mapM {P : β → Prop} {f : α → Except ArithmeticFault β} (l : List α)
    (hf : ∀ a ∈ l, Safe fits P (f a)) :
    Safe fits (fun bs => bs.length = l.length ∧ ∀ b ∈ bs, P b) (l.mapM f) := by
  induction l with
  | nil => exact .ok fun _ => ⟨rfl, by simp⟩
  | cons a l ih =>
    rw [List.mapM_cons]
    refine bind (hf a List.mem_cons_self) fun b hb => ?_
    refine bind (ih fun a ha => hf a (List.mem_cons_of_mem _ ha)) fun bs hbs => ?_
    refine .ok fun hfits => ?_
    obtain ⟨hlength, hall⟩ := hbs hfits
    refine ⟨by simp [hlength], ?_⟩
    intro b' hb'
    rcases List.mem_cons.mp hb' with rfl | hb'
    · exact hb hfits
    · exact hall b' hb'

end Safe

/-! ### Numbers within bounds -/

namespace Number

/-- A number whose magnitude is below two to the power of `k`. -/
def Within (k : Nat) : Number → Prop
  | .int n => n.natAbs < 2 ^ k
  | .float x => Binary.Within k x

/-- A number whose magnitude is at least two to the power of `-b`. -/
def AtLeast (b : Nat) : Number → Prop
  | .int n => n ≠ 0
  | .float x => Binary.AtLeast b x

variable {a b : Number} {i j k : Nat}

theorem Within.mono (h : a.Within i) (hij : i ≤ j) : a.Within j := by
  cases a with
  | int n => exact Nat.lt_of_lt_of_le h (Nat.pow_le_pow_right (by decide) hij)
  | float x => exact Binary.Within.mono h hij

/-- A whole number as a double. -/
theorem within_nearestFloat {n : Int} (h : n.natAbs < 2 ^ k) (hk : k ≤ 1023) :
    Binary.Within (k + 1) (nearestFloat n) :=
  Binary.within_nearest _ Nat.one_pos (by rwa [Nat.mul_one]) hk

theorem atLeast_nearestFloat {n : Int} (hn : n ≠ 0) (h : n.natAbs < 2 ^ k) (hk : k ≤ 1023)
    (b : Nat) (hb : b ≤ 1000) : Binary.AtLeast b (nearestFloat n) := by
  refine Binary.atLeast_nearest _ (by omega) Nat.one_pos ?_ hb (by rwa [Nat.mul_one]) hk
  exact Nat.mul_pos (by omega) (Nat.two_pow_pos b)

theorem Within.toFloat (h : a.Within k) (hk : k ≤ 1023) : Binary.Within (k + 1) a.toFloat := by
  cases a with
  | int n => exact within_nearestFloat h hk
  | float x => exact Binary.Within.mono h (by omega)

theorem AtLeast.toFloat {c : Nat} (h : a.AtLeast c) (hc : c ≤ 1000) (hsmall : a.Within k)
    (hk : k ≤ 1023) : Binary.AtLeast c a.toFloat := by
  cases a with
  | int n => exact atLeast_nearestFloat h hsmall hk c hc
  | float x => exact h

/-- A whole number below the bound of doubles is not beyond them. -/
theorem quotientOverflows_of_within {m n : Int} (h : m.natAbs < 2 ^ k) (hk : k ≤ 1023)
    (hn : n ≠ 0) : quotientOverflows m n = false := by
  rw [quotientOverflows, decide_eq_false_iff_not, Nat.not_le]
  calc m.natAbs < 2 ^ k := h
    _ ≤ 2 ^ 1023 := Nat.pow_le_pow_right (by decide) hk
    _ ≤ 1 * (twoTo 1024 - twoTo 970) := by decide +kernel
    _ ≤ n.natAbs * (twoTo 1024 - twoTo 970) := Nat.mul_le_mul_right _ (by omega)

theorem not_isBeyond {n : Int} (h : n.natAbs < 2 ^ k) (hk : k ≤ 1023) : isBeyond n = false :=
  quotientOverflows_of_within h hk (by decide)

theorem not_clashes (ha : a.Within i) (hb : b.Within j) (hi : i ≤ 1023) (hj : j ≤ 1023) :
    a.clashes b = false := by
  cases a <;> cases b
  · rfl
  · exact not_isBeyond ha hi
  · exact not_isBeyond hb hj
  · rfl

/-! ### What an operation can do -/

theorem minus_cases (a b : Number) :
    (a.clashes b = true ∧ a.minus b = .error .overflow) ∨
      (∃ m n, a = .int m ∧ b = .int n ∧ a.minus b = .ok (.int (m - n))) ∨
      a.minus b = .ok (.float (a.toFloat - b.toFloat)) := by
  unfold minus
  split
  case isTrue hclash => exact Or.inl ⟨hclash, rfl⟩
  case isFalse hclash =>
    cases a with
    | int m =>
      cases b with
      | int n => exact Or.inr (Or.inl ⟨m, n, rfl, rfl, rfl⟩)
      | float y => exact Or.inr (Or.inr rfl)
    | float x => exact Or.inr (Or.inr rfl)

theorem times_cases (a b : Number) :
    (a.clashes b = true ∧ a.times b = .error .overflow) ∨
      (∃ m n, a = .int m ∧ b = .int n ∧ a.times b = .ok (.int (m * n))) ∨
      a.times b = .ok (.float (a.toFloat * b.toFloat)) := by
  unfold times
  split
  case isTrue hclash => exact Or.inl ⟨hclash, rfl⟩
  case isFalse hclash =>
    cases a with
    | int m =>
      cases b with
      | int n => exact Or.inr (Or.inl ⟨m, n, rfl, rfl, rfl⟩)
      | float y => exact Or.inr (Or.inr rfl)
    | float x => exact Or.inr (Or.inr rfl)

theorem dividedBy_cases (a : Number) {b : Number} (hzero : b.isZero = false) :
    (a.clashes b = true ∧ a.dividedBy b = .error .overflow) ∨
      (∃ m n, a = .int m ∧ b = .int n ∧
        (quotientOverflows m n = true ∧ a.dividedBy b = .error .overflow ∨
          a.dividedBy b = .ok (.float (quotient m n)))) ∨
      a.dividedBy b = .ok (.float (a.toFloat / b.toFloat)) := by
  unfold dividedBy
  rw [hzero]
  split
  case isTrue hclash => exact Or.inl ⟨hclash, rfl⟩
  case isFalse hclash =>
    right
    -- Two whole numbers are divided exactly before rounding, everything else as doubles.
    cases a with
    | int m =>
      cases b with
      | int n =>
        refine Or.inl ⟨m, n, rfl, rfl, ?_⟩
        rw [if_neg Bool.false_ne_true]
        dsimp only
        split
        case isTrue hoverflow => exact Or.inl ⟨hoverflow, rfl⟩
        case isFalse => exact Or.inr rfl
      | float y => exact Or.inr rfl
    | float x => exact Or.inr rfl

/-! ### Arithmetic within bounds -/

theorem Within.add (ha : a.Within k) (hb : b.Within k) (hk : k ≤ 1020) :
    (a + b).Within (k + 3) := by
  have hfloat := (ha.toFloat (by omega)).add (hb.toFloat (by omega)) (by omega)
  cases a with
  | int m =>
    cases b with
    | int n =>
      have hm : m.natAbs < 2 ^ k := ha
      have hn : n.natAbs < 2 ^ k := hb
      change (m + n).natAbs < 2 ^ (k + 3)
      rw [Nat.pow_add]
      omega
    | float y => exact hfloat
  | float x => exact hfloat

section

variable {fits : Prop}

/-- Counts that fit do not clash. -/
theorem not_fits_of_clashes (ha : fits → a.Within i) (hb : fits → b.Within j) (hi : i ≤ 1023)
    (hj : j ≤ 1023) (h : a.clashes b = true) : ¬fits := by
  intro hfits
  rw [not_clashes (ha hfits) (hb hfits) hi hj] at h
  cases h

theorem safe_plus (ha : fits → a.Within k) (hb : fits → b.Within k) (hk : k ≤ 1020) :
    Safe fits (Within (k + 3)) (a.plus b) := by
  unfold plus
  split
  case isTrue hclash =>
    exact .error (by decide) (not_fits_of_clashes ha hb (by omega) (by omega) hclash)
  case isFalse hclash => exact .ok fun hfits => (ha hfits).add (hb hfits) hk

theorem safe_minus (ha : fits → a.Within k) (hb : fits → b.Within k) (hk : k ≤ 1020) :
    Safe fits (Within (k + 3)) (a.minus b) := by
  rcases minus_cases a b with ⟨hclash, h⟩ | ⟨m, n, rfl, rfl, h⟩ | h <;> rw [h]
  · exact .error (by decide) (not_fits_of_clashes ha hb (by omega) (by omega) hclash)
  · refine .ok fun hfits => ?_
    have hm : m.natAbs < 2 ^ k := ha hfits
    have hn : n.natAbs < 2 ^ k := hb hfits
    change (m - n).natAbs < 2 ^ (k + 3)
    rw [Nat.pow_add]
    omega
  · refine .ok fun hfits => ?_
    exact ((ha hfits).toFloat (by omega)).sub ((hb hfits).toFloat (by omega)) (by omega)

theorem safe_times (ha : fits → a.Within i) (hb : fits → b.Within j) (hij : i + j ≤ 1020) :
    Safe fits (Within (i + j + 3)) (a.times b) := by
  rcases times_cases a b with ⟨hclash, h⟩ | ⟨m, n, rfl, rfl, h⟩ | h <;> rw [h]
  · exact .error (by decide) (not_fits_of_clashes ha hb (by omega) (by omega) hclash)
  · refine .ok fun hfits => ?_
    calc (m * n).natAbs = m.natAbs * n.natAbs := Int.natAbs_mul m n
      _ < 2 ^ i * 2 ^ j := Nat.mul_lt_mul'' (ha hfits) (hb hfits)
      _ = 2 ^ (i + j) := (Nat.pow_add 2 i j).symm
      _ ≤ 2 ^ (i + j + 3) := Nat.pow_le_pow_right (by decide) (by omega)
  · refine .ok fun hfits => ?_
    exact (((ha hfits).toFloat (by omega)).mul ((hb hfits).toFloat (by omega)) (by omega)).mono
      (by omega)

/-- A quotient is bounded by how large the dividend and how small the divisor can be. -/
theorem safe_dividedBy {c : Nat} (ha : fits → a.Within i) (hzero : b.isZero = false)
    (hlow : fits → b.AtLeast c) (hb : fits → b.Within j) (hj : j ≤ 1000) (hic : i + c ≤ 1000) :
    Safe fits (Within (i + c + 2)) (a.dividedBy b) := by
  rcases dividedBy_cases a hzero with
    ⟨hclash, h⟩ | ⟨m, n, rfl, rfl, ⟨hoverflow, h⟩ | h⟩ | h <;> rw [h]
  · refine .error (by decide) ?_
    exact not_fits_of_clashes ha hb (by omega) (by omega) hclash
  · refine .error (by decide) fun hfits => ?_
    rw [quotientOverflows_of_within (ha hfits) (by omega) (hlow hfits)] at hoverflow
    cases hoverflow
  · refine .ok fun hfits => ?_
    have hn : n ≠ 0 := hlow hfits
    have hratio : m.natAbs < 2 ^ i * n.natAbs :=
      Nat.lt_of_lt_of_le (ha hfits) (Nat.le_mul_of_pos_right _ (by omega))
    exact (Binary.within_nearest _ (by omega) hratio (by omega)).mono (by omega)
  · refine .ok fun hfits => ?_
    have hdivisor := (hlow hfits).toFloat (by omega) (hb hfits) (by omega)
    exact (((ha hfits).toFloat (by omega)).div hdivisor (by omega)).mono (by omega)

/-- The quotient by a whole number other than zero. -/
theorem safe_dividedBy_int {n : Int} (ha : fits → a.Within i) (hn : n ≠ 0)
    (hsmall : fits → n.natAbs < 2 ^ j) (hj : j ≤ 1000) (hi : i ≤ 1000) :
    Safe fits (Within (i + 2)) (a.dividedBy (.int n)) :=
  safe_dividedBy (c := 0) ha (by simpa [isZero] using hn) (fun _ => hn) hsmall hj hi

/-! ### Sums -/

/-- A sum of `done` numbers below two to the power of `k`, which is to become one of less than
`2 ^ c`. A whole sum grows with every term. A sum of doubles stays below a bound that is far above
every term. -/
def PartialSum (k c done : Nat) : Number → Prop
  | .int n => n.natAbs ≤ done * 2 ^ k
  | .float x => Binary.Within (k + c + 55) x

theorem PartialSum.within {c done : Nat} {start : Number} (h : start.PartialSum k c done)
    (hdone : done < 2 ^ c) : start.Within (k + c + 55) := by
  cases start with
  | int n =>
    calc n.natAbs ≤ done * 2 ^ k := h
      _ < 2 ^ c * 2 ^ k := Nat.mul_lt_mul_of_pos_right hdone (Nat.two_pow_pos k)
      _ = 2 ^ (c + k) := (Nat.pow_add 2 c k).symm
      _ ≤ 2 ^ (k + c + 55) := Nat.pow_le_pow_right (by decide) (by omega)
  | float x => exact h

/-- Adding a term to a sum. -/
theorem PartialSum.add {c done : Nat} {start n : Number} (h : start.PartialSum k c done)
    (hn : n.Within k) (hdone : done < 2 ^ c) (hbound : k + c + 55 ≤ 1000) :
    (start + n).PartialSum k c (done + 1) := by
  cases start with
  | int m =>
    have hm : m.natAbs ≤ done * 2 ^ k := h
    have hsmall : m.natAbs < 2 ^ (k + c) := by
      rw [Nat.pow_add, Nat.mul_comm]
      exact Nat.lt_of_le_of_lt hm (Nat.mul_lt_mul_of_pos_right hdone (Nat.two_pow_pos k))
    cases n with
    | int n =>
      have hn : n.natAbs < 2 ^ k := hn
      change (m + n).natAbs ≤ (done + 1) * 2 ^ k
      rw [Nat.succ_mul]
      omega
    -- The sum becomes a double here and stays one. As such it is bounded with room to spare.
    | float y =>
      have hfloat := (within_nearestFloat hsmall (by omega)).mono
        (show k + c + 1 ≤ k + c + 55 by omega)
      exact hfloat.add_small hn (by omega) (by omega)
  | float x =>
    have hx : Binary.Within (k + c + 55) x := h
    cases n with
    | int n => exact hx.add_small (within_nearestFloat hn (by omega)) (by omega) (by omega)
    | float y => exact hx.add_small hn (by omega) (by omega)

theorem safe_sumFrom {c : Nat} (hbound : k + c + 55 ≤ 1000) (values : List Number)
    (hvalues : fits → ∀ n ∈ values, n.Within k) (done : Nat) (start : Number)
    (hlength : fits → done + values.length < 2 ^ c)
    (hstart : fits → start.PartialSum k c done) :
    Safe fits (Within (k + c + 55)) (sumFrom start values) := by
  induction values generalizing start done with
  | nil => exact .ok fun hfits => (hstart hfits).within (hlength hfits)
  | cons n rest ih =>
    have hdone : fits → done < 2 ^ c := by
      intro hfits
      have := hlength hfits
      omega
    have hn : fits → n.Within k := fun hfits => hvalues hfits n List.mem_cons_self
    rw [sumFrom]
    -- One more term keeps the bound on what is summed up so far.
    have hstep : Safe fits (PartialSum k c (done + 1)) (start.plus n) := by
      unfold plus
      split
      case isTrue hclash =>
        refine .error (by decide) ?_
        exact not_fits_of_clashes (fun hfits => (hstart hfits).within (hdone hfits)) hn (by omega)
          (by omega) hclash
      case isFalse hclash =>
        exact .ok fun hfits => (hstart hfits).add (hn hfits) (hdone hfits) hbound
    refine hstep.bind fun next hnext => ?_
    have hrest : fits → done + 1 + rest.length < 2 ^ c := by
      intro hfits
      have := hlength hfits
      rw [List.length_cons] at this
      omega
    exact ih (fun hfits m hm => hvalues hfits m (List.mem_cons_of_mem _ hm)) (done + 1) next hrest
      hnext

theorem safe_sum {c : Nat} (hbound : k + c + 55 ≤ 1000) (values : List Number)
    (hvalues : fits → ∀ n ∈ values, n.Within k) (hlength : fits → values.length < 2 ^ c) :
    Safe fits (Within (k + c + 55)) (sum values) :=
  safe_sumFrom hbound values hvalues 0 0 (by simpa using hlength) fun _ => Nat.zero_le _

end

end Number

/-! ### The formulas -/

namespace Number

/-- A number that is zero or at least two to the power of `-c` in magnitude. -/
def Discrete (c : Nat) (n : Number) : Prop :=
  n.isZero = false → n.AtLeast c

/-- Whole numbers are. -/
theorem discrete_int (n : Int) (c : Nat) : (int n).Discrete c := by
  intro hzero
  exact fun h => Bool.false_ne_true (hzero.symm.trans (beq_iff_eq.mpr h))

/-- Zero divided is zero, with a sign. -/
theorem isZero_quotient_zero (n : Int) : (float (quotient 0 n)).isZero = true := by
  have hsign : ∀ sign, (Binary.assemble sign 0 Binary.leastExponent == 0.0) = true := by decide
  exact hsign _

/-- So are whole numbers divided by a whole number. -/
theorem discrete_dividedBy {m n : Int} {a : Number} {k c : Nat}
    (h : (int m).dividedBy (.int n) = .ok a) (hm : m.natAbs < 2 ^ k) (hk : k ≤ 1000) (hn : n ≠ 0)
    (hsmall : n.natAbs < 2 ^ c) (hc : c ≤ 1000) : a.Discrete c := by
  have hquotient : a = .float (quotient m n) := by
    have hoverflow := quotientOverflows_of_within hm (by omega) hn
    simpa [dividedBy, clashes, isZero, hn, hoverflow] using h.symm
  subst hquotient
  intro hzero
  by_cases hm0 : m = 0
  · rw [hm0, isZero_quotient_zero] at hzero
    cases hzero
  · have hratio : n.natAbs ≤ m.natAbs * 2 ^ c := by
      calc n.natAbs ≤ 1 * 2 ^ c := by omega
        _ ≤ m.natAbs * 2 ^ c := Nat.mul_le_mul_right _ (by omega)
    refine Binary.atLeast_nearest _ (by omega) (by omega) hratio hc ?_ (show k ≤ 1023 by omega)
    exact Nat.lt_of_lt_of_le hm (Nat.le_mul_of_pos_right _ (by omega))

end Number

namespace Measure

open Number

theorem within_zero (k : Nat) : Binary.Within k 0.0 := by
  trivial

/-- A logarithm of a finite double is bounded. -/
theorem within_inRange (log : Float → Float) {x : Float} (hx : Binary.isFinite x = true) :
    Binary.Within 11 (inRange log x) := by
  unfold inRange
  dsimp only
  split
  case isTrue => exact within_zero 11
  case isFalse h =>
    rw [hx] at h
    simp only [Bool.true_and, Bool.not_eq_true', Bool.not_eq_false, Bool.and_eq_true,
      decide_eq_true_eq] at h
    exact Binary.within_of_between h.1 h.2

theorem within_logOf (log : Float → Float) {value : Number} {k : Nat} (h : value.Within k)
    (hk : k ≤ 1023) : Binary.Within 11 (logOf (inRange log) value) := by
  cases value with
  | int n =>
    rw [logOf, logOfInt, if_neg (by simp [not_isBeyond h hk])]
    exact within_inRange log (within_nearestFloat h hk).isFinite
  | float x => exact within_inRange log (Binary.Within.isFinite h)

theorem within_safeLog {value : Number} {k : Nat} (h : value.Within k) (hk : k ≤ 1023) :
    Binary.Within 11 (safeLog value) := by
  unfold safeLog
  split
  · exact within_zero 11
  · exact within_logOf _ h hk

section

variable {fits : Prop} {i j k c : Nat}

theorem safe_volume {operators operands distinctOperators distinctOperands : Number}
    (h₁ : fits → operators.Within k) (h₂ : fits → operands.Within k)
    (h₃ : fits → distinctOperators.Within k) (h₄ : fits → distinctOperands.Within k)
    (hk : k ≤ 1000) :
    Safe fits (Within (k + 17)) (volume operators operands distinctOperators distinctOperands) := by
  refine (safe_plus h₁ h₂ (by omega)).bind fun length hlength => ?_
  refine (safe_plus h₃ h₄ (by omega)).bind fun vocabulary hvocabulary => ?_
  split
  · exact .ok fun _ => within_zero _
  · refine safe_times (j := 11) hlength (fun hfits => ?_) (by omega)
    exact within_logOf _ (hvocabulary hfits) (by omega)

theorem safe_difficulty {distinctOperators distinctOperands operands : Number}
    (h₁ : fits → distinctOperators.Within k) (h₂ : fits → distinctOperands.Within k)
    (h₃ : fits → operands.Within k) (hdiscrete : fits → distinctOperands.Discrete 0)
    (hk : k ≤ 500) :
    Safe fits (Within (2 * k + 7)) (difficulty distinctOperators distinctOperands operands) := by
  unfold difficulty
  split
  · exact .ok fun _ => within_zero _
  case isFalse hzero =>
    rw [Bool.not_eq_true] at hzero
    refine (safe_dividedBy_int (j := 2) h₁ (by decide) (fun _ => by decide) (by decide)
      (by omega)).bind fun half hhalf => ?_
    refine (safe_dividedBy h₃ hzero (fun hfits => hdiscrete hfits hzero) h₂ (by omega)
      (by omega)).bind fun use huse => ?_
    exact (safe_times hhalf huse (by omega)).mono fun _ h => h.mono (by omega)

theorem safe_density {cyclomatic logical : Number} (h₁ : fits → cyclomatic.Within k)
    (h₂ : fits → logical.Within k) (hdiscrete : fits → logical.Discrete c) (hkc : k + c ≤ 990) :
    Safe fits (Within (k + c + 12)) (density cyclomatic logical) := by
  unfold density
  split
  · exact .ok fun _ => within_zero _
  case isFalse hzero =>
    rw [Bool.not_eq_true] at hzero
    refine (safe_dividedBy h₁ hzero (fun hfits => hdiscrete hfits hzero) h₂ (by omega)
      (by omega)).bind fun ratio hratio => ?_
    have hhundred : fits → (100 : Number).Within 7 := fun _ => (by decide : (100 : Nat) < 2 ^ 7)
    exact safe_times (j := 7) hratio hhundred (by omega)

/-- The index is bounded whatever the counts are. -/
theorem within_maintainability {effort cyclomatic logical : Number} (h₁ : effort.Within k)
    (h₂ : cyclomatic.Within k) (h₃ : logical.Within k) (scaled : Bool) (hk : k ≤ 1023) :
    Binary.Within 29 (maintainability effort cyclomatic logical scaled) := by
  -- Logarithms are below `2 ^ 11`, whatever they are taken of.
  have hindex : Binary.Within 20 (171.0 - 3.42 * safeLog effort - 1.0 * safeLog cyclomatic -
      16.2 * safeLog logical) := by
    have h171 : Binary.Within 14 171.0 := ⟨⟨by decide, by decide, by decide⟩, by decide⟩
    have h342 : Binary.Within 2 3.42 := ⟨⟨by decide, by decide, by decide⟩, by decide⟩
    have h100 : Binary.Within 1 1.0 := ⟨⟨by decide, by decide, by decide⟩, by decide⟩
    have h162 : Binary.Within 5 16.2 := ⟨⟨by decide, by decide, by decide⟩, by decide⟩
    have heffort := h342.mul (within_safeLog h₁ hk) (by decide)
    have hcyclomatic := h100.mul (within_safeLog h₂ hk) (by decide)
    have hlogical := h162.mul (within_safeLog h₃ hk) (by decide)
    have hfirst := h171.sub heffort (by decide)
    have hsecond := hfirst.sub (hcyclomatic.mono (by decide)) (by decide)
    exact hsecond.sub (hlogical.mono (by decide)) (by decide)
  have h100 : Binary.Within 7 100.0 := ⟨⟨by decide, by decide, by decide⟩, by decide⟩
  have h171 : Binary.AtLeast 0 171.0 := ⟨⟨by decide, by decide, by decide⟩, by decide⟩
  have hpercent := (hindex.mul h100 (by decide)).div h171 (by decide)
  unfold maintainability
  dsimp only
  split
  · split
    · exact hpercent
    · exact within_zero 29
  · exact hindex.mono (by decide)

/-! ### Rounding -/

theorem safe_floor {x : Float} (h : fits → Binary.Within k x) :
    Safe fits (fun n => n.natAbs < 2 ^ (k + 1)) (floor x) := by
  unfold floor
  split
  · refine .ok fun hfits => ?_
    have hle := (h hfits).natAbs_floor_le
    have hpos := Nat.two_pow_pos k
    rw [Nat.pow_succ]
    omega
  case isFalse hinfinite =>
    -- What is not finite has no whole part, but counts that fit do not lead there.
    have hlarge : ¬fits := fun hfits => hinfinite (h hfits).isFinite
    split
    · exact .error (by decide) hlarge
    · exact .error (by decide) hlarge

/-- Rounding to a number of places whose power of ten is the whole number `factor`. -/
theorem safe_round {value places : Number} {factor : Int} (h : fits → value.Within k)
    (hscale : scale places = .ok (.int factor)) (hfactor : factor ≠ 0)
    (hsmall : factor.natAbs < 2 ^ 10) (hk : k ≤ 980) :
    Safe fits (Within (k + 18)) (round value places) := by
  unfold round
  split
  · exact .ok fun hfits => (h hfits).mono (by omega)
  · rw [hscale]
    -- Rounding adds a half and takes the whole part, which is bounded like the number it is taken
    -- of.
    have hhalf : Binary.Within (k + 13) 0.5 :=
      Binary.Within.mono (a := 0) ⟨⟨by decide, by decide, by decide⟩, by decide⟩ (by omega)
    have hfloor : fits → Binary.Within (k + 15) (value.toFloat * nearestFloat factor + 0.5) := by
      intro hfits
      have hproduct := ((h hfits).toFloat (by omega)).mul (within_nearestFloat hsmall (by decide))
        (by omega)
      exact (hproduct.mono (by omega)).add hhalf (by omega)
    refine (safe_floor hfloor).bind fun n hn => ?_
    exact safe_dividedBy_int (i := k + 16) hn hfactor (fun _ => hsmall) (by decide) (by omega)

end

end Measure

end CodeMetrics
