import Mathlib.Data.List.Forall2

/-!
# `CodeMetrics.Proofs.Result`: results that may be errors

Two results agree (`Agree`) if they are the same error, or values that are related.
-/

set_option autoImplicit false

namespace CodeMetrics

/-- Two results agree if both fail in the same way, or both succeed with related values. -/
inductive Agree {ε α β : Type} (R : α → β → Prop) : Except ε α → Except ε β → Prop
  | ok {a : α} {b : β} (h : R a b) : Agree R (.ok a) (.ok b)
  | error (e : ε) : Agree R (.error e) (.error e)

namespace Agree

variable {ε α β : Type}

/-- Results that agree on equal values are equal. -/
theorem eq {x y : Except ε α} (h : Agree Eq x y) : x = y := by
  cases h with
  | ok h => rw [h]
  | error e => rfl

/-- Results that agree up to a function are equal up to it. -/
theorem eq_map {f : α → β} {x : Except ε α} {y : Except ε β}
    (h : Agree (fun a b => b = f a) x y) : y = x.map f := by
  cases h with
  | ok h => exact congrArg Except.ok h
  | error e => rfl

/-- A result agrees with itself. -/
theorem refl (x : Except ε α) : Agree Eq x x := by
  cases x with
  | ok a => exact .ok rfl
  | error e => exact .error e

/-- Results that agree also do so by all that is known of the values they succeed with. -/
theorem imp_ok {R S : α → β → Prop} {x : Except ε α} {y : Except ε β} (h : Agree R x y)
    (hRS : ∀ a b, x = .ok a → y = .ok b → R a b → S a b) : Agree S x y := by
  cases h with
  | ok h => exact .ok (hRS _ _ rfl rfl h)
  | error e => exact .error e

/-- So they do by a weaker relation. -/
theorem imp {R S : α → β → Prop} {x : Except ε α} {y : Except ε β} (h : Agree R x y)
    (hRS : ∀ a b, R a b → S a b) : Agree S x y :=
  h.imp_ok fun a b _ _ => hRS a b

/-- The values of results that agree are related. -/
theorem rel {R : α → β → Prop} {x : Except ε α} {y : Except ε β} {a : α} {b : β} (h : Agree R x y)
    (hx : x = .ok a) (hy : y = .ok b) : R a b := by
  subst hx hy
  cases h with
  | ok h => exact h

/-- Results that agree with the same one agree with each other. -/
theorem trans {γ : Type} {R : α → β → Prop} {S : β → γ → Prop} {x : Except ε α} {y : Except ε β}
    {z : Except ε γ} (h : Agree R x y) (h' : Agree S y z) :
    Agree (fun a c => ∃ b, R a b ∧ S b c) x z := by
  cases h with
  | ok h =>
    cases h' with
    | ok h' => exact .ok ⟨_, h, h'⟩
  | error e =>
    cases h'
    exact .error e

/-- Going on with related values, results agree if they do from there on. -/
theorem bind {γ δ : Type} {R : α → β → Prop} {S : γ → δ → Prop} {x : Except ε α}
    {y : Except ε β} {f : α → Except ε γ} {g : β → Except ε δ} (h : Agree R x y)
    (hfg : ∀ a b, R a b → Agree S (f a) (g b)) : Agree S (x >>= f) (y >>= g) := by
  cases h with
  | ok h => exact hfg _ _ h
  | error e => exact .error e

/-- After the same first step, results agree if they do from there on. -/
theorem bind_same {γ δ : Type} {S : γ → δ → Prop} (x : Except ε α) {f : α → Except ε γ}
    {g : α → Except ε δ} (h : ∀ a, Agree S (f a) (g a)) : Agree S (x >>= f) (x >>= g) := by
  cases x with
  | ok a => exact h a
  | error e => exact .error e

/-- Another error in place of each keeps the agreement. -/
theorem mapError {φ : Type} {R : α → β → Prop} {x : Except ε α} {y : Except ε β}
    (h : Agree R x y) (f : ε → φ) : Agree R (x.mapError f) (y.mapError f) := by
  cases h with
  | ok h => exact .ok h
  | error e => exact .error (f e)

end Agree

/-- The parts of a result that comes about in two steps. -/
theorem exists_of_bind_eq_ok {ε α β : Type} {x : Except ε α} {f : α → Except ε β} {b : β}
    (h : x >>= f = .ok b) : ∃ a, x = .ok a ∧ f a = .ok b := by
  cases x with
  | error e => cases h
  | ok a => exact ⟨a, rfl, h⟩

theorem bind_eq_ok_iff {ε α β : Type} {x : Except ε α} {f : α → Except ε β} {b : β} :
    x >>= f = .ok b ↔ ∃ a, x = .ok a ∧ f a = .ok b := by
  constructor
  · exact exists_of_bind_eq_ok
  · rintro ⟨a, rfl, h⟩
    exact h

/-- Going on with a result that is there. -/
theorem bind_eq_of_eq_ok {ε α β : Type} {x : Except ε α} {f : α → Except ε β} {a : α}
    (h : x = .ok a) : x >>= f = f a := by
  subst h
  rfl

/-- A result comes about in two steps if both can be made. -/
theorem exists_bind_eq_ok {ε α β : Type} {x : Except ε α} {f : α → Except ε β} {a : α}
    (hx : x = .ok a) (hf : ∃ b, f a = .ok b) : ∃ b, x >>= f = .ok b := by
  rwa [bind_eq_of_eq_ok hx]

/-- A list of results is there if each of them is. -/
theorem mapM_eq_ok_iff {ε α β : Type} {f : α → Except ε β} {l : List α} {r : List β} :
    l.mapM f = .ok r ↔ List.Forall₂ (fun a b => f a = .ok b) l r := by
  induction l generalizing r with
  | nil =>
    rw [List.forall₂_nil_left_iff]
    constructor
    · rintro ⟨⟩
      rfl
    · rintro rfl
      rfl
  | cons a l ih =>
    rw [List.mapM_cons, List.forall₂_cons_left_iff]
    simp only [bind_eq_ok_iff, ih]
    constructor
    · rintro ⟨b, hb, bs, hbs, ⟨⟩⟩
      exact ⟨b, bs, hb, hbs, rfl⟩
    · rintro ⟨b, bs, hb, hbs, rfl⟩
      exact ⟨b, hb, bs, hbs, rfl⟩

/-- One result for each item of a list. -/
theorem exists_getElem?_of_mapM {ε α β : Type} {f : α → Except ε β} {l : List α} {r : List β}
    (h : l.mapM f = .ok r) :
    r.length = l.length ∧
      ∀ (k : Nat) (a : α), l[k]? = some a → ∃ b, r[k]? = some b ∧ f a = .ok b := by
  have hall := mapM_eq_ok_iff.mp h
  refine ⟨hall.length_eq.symm, fun k a ha => ?_⟩
  obtain ⟨hk, rfl⟩ := List.getElem?_eq_some_iff.mp ha
  have hk' : k < r.length := hall.length_eq ▸ hk
  exact ⟨r[k], List.getElem?_eq_getElem hk', hall.get hk hk'⟩

/-- A result that is there. -/
theorem eq_ok_of_toOption {ε α : Type} {x : Except ε α} {a : α} (h : x.toOption = some a) :
    x = .ok a := by
  cases x with
  | error e => cases h
  | ok b =>
    cases h
    rfl

/-- A result of which something is known is there. -/
theorem exists_ok_of_map_toOption {ε α β : Type} {x : Except ε α} {f : α → β} {b : β}
    (h : x.toOption.map f = some b) : ∃ a, x = .ok a ∧ f a = b := by
  obtain ⟨a, ha, hb⟩ := Option.map_eq_some_iff.mp h
  exact ⟨a, eq_ok_of_toOption ha, hb⟩

/-- A result whose error was replaced is a result. -/
theorem eq_ok_of_mapError {ε φ α : Type} {x : Except ε α} {f : ε → φ} {a : α}
    (h : x.mapError f = .ok a) : x = .ok a := by
  cases x with
  | error e => cases h
  | ok b =>
    cases h
    rfl

end CodeMetrics
