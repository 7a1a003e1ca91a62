/-!
# `CodeMetrics.Tally`: how often each token occurs

A tally lists the different tokens in the order they were first met, each with the number
of times it was met. No token is listed twice, and each number is at least one.
-/

set_option autoImplicit false

namespace CodeMetrics

/-- The different tokens in the order they were first met, with the number of times each
was met. -/
structure Tally (τ : Type) where
  counts : List (τ × Nat) := []
  deriving DecidableEq

namespace Tally

variable {τ : Type}

/-- Counts one more occurrence of a token in a list of counts. -/
def bump [BEq τ] (token : τ) : List (τ × Nat) → List (τ × Nat)
  | [] => [(token, 1)]
  | (other, n) :: rest =>
    if other == token then (other, n + 1) :: rest else (other, n) :: bump token rest

/-- Counts one more occurrence of a token. -/
def add [BEq τ] (t : Tally τ) (token : τ) : Tally τ :=
  ⟨bump token t.counts⟩

/-- The different tokens in the order they were first met. -/
def identifiers (t : Tally τ) : List τ :=
  t.counts.map (·.1)

/-- The number of different tokens. -/
def distinct (t : Tally τ) : Nat :=
  t.counts.length

/-- The number of tokens that were met. -/
def total (t : Tally τ) : Nat :=
  t.counts.foldr (fun entry rest => entry.2 + rest) 0

/-- How often a token was met. -/
def count [BEq τ] (t : Tally τ) (token : τ) : Nat :=
  (t.counts.lookup token).getD 0

/-- Applies a function to the tokens. -/
def map {σ : Type} (f : τ → σ) (t : Tally τ) : Tally σ :=
  ⟨t.counts.map fun entry => (f entry.1, entry.2)⟩

end Tally

end CodeMetrics
