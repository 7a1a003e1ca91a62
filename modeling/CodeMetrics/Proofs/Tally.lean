import CodeMetrics.Tally
import Mathlib.Data.List.Induction
import Mathlib.Data.List.Nodup

/-!
# `CodeMetrics.Proofs.Tally`: a tally counts what it was given

`Tally.Counts` says what the tally of some tokens is, without saying how it came about. The
different tokens are listed in the order of their first occurrence, and each one has the
number of times it occurs. Adding a token keeps this up (`Counts.add`), and so does adding
several (`Counts.addAll`). So a tally is given by its tokens (`Counts.eq`), its total is their
number (`Counts.total_eq`), and two tallies can be joined (`Counts.join`).
-/

set_option autoImplicit false

namespace CodeMetrics

namespace Tally

variable {τ : Type} [BEq τ]

/-- The tally lists the different tokens in the order of their first occurrence, and gives
for each token how often it occurs. -/
structure Counts (t : Tally τ) (tokens : List τ) : Prop where
  identifiers : t.identifiers = tokens.eraseDups
  count : ∀ token, t.count token = tokens.count token

/-- The empty tally counts no tokens. -/
theorem counts_empty : ({} : Tally τ).Counts [] where
  identifiers := rfl
  count _ := rfl

variable [LawfulBEq τ]

/-- Counting a token lists it if it was not listed before. -/
theorem map_fst_bump (token : τ) (l : List (τ × Nat)) :
    (bump token l).map (·.1) =
      if token ∈ l.map (·.1) then l.map (·.1) else l.map (·.1) ++ [token] := by
  induction l with
  | nil => rfl
  | cons entry rest ih =>
    obtain ⟨other, n⟩ := entry
    by_cases h : other = token
    · simp [bump, h]
    · have hne : token ≠ other := Ne.symm h
      simp only [bump, beq_iff_eq, h, if_false, List.map_cons, ih, List.mem_cons, hne, false_or]
      split <;> rfl

/-- Counting a token adds one to its number, and nothing to the others. -/
theorem lookup_bump (token other : τ) (l : List (τ × Nat)) :
    ((bump token l).lookup other).getD 0 =
      (l.lookup other).getD 0 + if token == other then 1 else 0 := by
  induction l with
  | nil =>
    by_cases h : token = other
    · simp [bump, h]
    · have hne : (other == token) = false := beq_eq_false_iff_ne.mpr (Ne.symm h)
      simp [bump, List.lookup_cons, h, hne]
  | cons entry rest ih =>
    obtain ⟨first, n⟩ := entry
    by_cases h : first = other
    · subst h
      by_cases htoken : first = token
      · simp [bump, htoken]
      · simp [bump, htoken, Ne.symm htoken]
    · have hne : (other == first) = false := beq_eq_false_iff_ne.mpr (Ne.symm h)
      by_cases htoken : first = token
      · subst htoken
        simp [bump, List.lookup_cons, h, hne]
      · simpa [bump, List.lookup_cons, htoken, hne] using ih

/-- A token that is added occurs once more. -/
theorem count_add (t : Tally τ) (token other : τ) :
    (t.add token).count other = t.count other + if token == other then 1 else 0 :=
  lookup_bump token other t.counts

/-- Adding a token to a tally. -/
theorem Counts.add {t : Tally τ} {tokens : List τ} (h : t.Counts tokens) (token : τ) :
    (t.add token).Counts (tokens ++ [token]) where
  identifiers := by
    show (bump token t.counts).map (·.1) = _
    have hlisted : t.counts.map (·.1) = tokens.eraseDups := h.identifiers
    rw [map_fst_bump, hlisted, List.eraseDups_append]
    by_cases hmem : token ∈ tokens
    · simp [List.removeAll, hmem]
    · simp [List.removeAll, hmem, List.eraseDups_cons]
  count other := by
    rw [List.count_append, List.count_singleton, ← h.count other]
    exact count_add t token other

/-- Every listed token occurs. -/
def Positive (t : Tally τ) : Prop :=
  ∀ entry ∈ t.counts, 0 < entry.2

omit [BEq τ] [LawfulBEq τ] in
/-- The empty tally lists nothing. -/
theorem positive_empty : ({} : Tally τ).Positive := by
  intro entry hentry
  cases hentry

omit [LawfulBEq τ] in
/-- A token that is added occurs. -/
theorem Positive.add {t : Tally τ} (h : t.Positive) (token : τ) : (t.add token).Positive := by
  show ∀ entry ∈ bump token t.counts, 0 < entry.2
  unfold Positive at h
  generalize t.counts = l at h
  induction l with
  | nil => simp [bump]
  | cons entry rest ih =>
    obtain ⟨hentry, hrest⟩ := List.forall_mem_cons.mp h
    obtain ⟨other, n⟩ := entry
    simp only [bump]
    split
    · exact List.forall_mem_cons.mpr ⟨Nat.succ_pos n, hrest⟩
    · exact List.forall_mem_cons.mpr ⟨hentry, ih hrest⟩

/-- The listed tokens are those that occur. -/
theorem Positive.mem_identifiers_iff {t : Tally τ} (h : t.Positive) (token : τ) :
    token ∈ t.identifiers ↔ 0 < t.count token := by
  unfold Positive at h
  show token ∈ t.counts.map (·.1) ↔ 0 < (t.counts.lookup token).getD 0
  generalize t.counts = l at h
  induction l with
  | nil => simp
  | cons entry rest ih =>
    obtain ⟨hentry, hrest⟩ := List.forall_mem_cons.mp h
    obtain ⟨other, n⟩ := entry
    by_cases hother : token = other
    · simpa [hother] using hentry
    · have hne : (token == other) = false := beq_eq_false_iff_ne.mpr hother
      rw [List.lookup_cons, hne, ← ih hrest]
      simp [hother]

/-- Adding several tokens to a tally. -/
theorem Counts.addAll {t : Tally τ} {tokens : List τ} (h : t.Counts tokens) (more : List τ) :
    (more.foldl Tally.add t).Counts (tokens ++ more) := by
  induction more generalizing t tokens with
  | nil =>
    rw [List.append_nil]
    exact h
  | cons token rest ih =>
    have := ih (h.add token)
    rwa [List.append_assoc, List.singleton_append] at this

/-! ### Tallies of the same tokens -/

/-- Lists of different tokens can be filtered first. -/
theorem eraseDups_filter (keep : τ → Bool) (tokens : List τ) :
    (tokens.filter keep).eraseDups = tokens.eraseDups.filter keep := by
  induction tokens using List.reverseRecOn with
  | nil => rfl
  | append_singleton tokens token ih =>
    rw [List.filter_append, List.eraseDups_append, List.eraseDups_append, List.filter_append, ih]
    by_cases hkeep : keep token
    · by_cases hmem : token ∈ tokens
      · simp [List.removeAll, hkeep, hmem]
      · simp [List.removeAll, hkeep, hmem, List.eraseDups_cons]
    · by_cases hmem : token ∈ tokens
      · simp [List.removeAll, hkeep, hmem]
      · simp [List.removeAll, hkeep, hmem, List.eraseDups_cons]

/-- Different tokens are listed once. -/
theorem nodup_eraseDups (tokens : List τ) : tokens.eraseDups.Nodup := by
  induction tokens using List.reverseRecOn with
  | nil => exact List.nodup_nil
  | append_singleton tokens token ih =>
    rw [List.eraseDups_append]
    by_cases hmem : token ∈ tokens
    · simpa [List.removeAll, hmem] using ih
    · have hnew : token ∉ tokens.eraseDups := fun h => hmem (List.mem_eraseDups.mp h)
      simpa [List.removeAll, hmem, List.eraseDups_cons] using ih.concat hnew

/-- Where tokens are listed once, the list says nothing but how often each occurs. -/
theorem counts_eq_map {l : List (τ × Nat)} (h : (l.map (·.1)).Nodup) :
    l = (l.map (·.1)).map fun token => (token, (l.lookup token).getD 0) := by
  induction l with
  | nil => rfl
  | cons entry rest ih =>
    obtain ⟨token, n⟩ := entry
    obtain ⟨hnew, hrest⟩ := List.nodup_cons.mp h
    have htail : (rest.map (·.1)).map (fun other => (other, (rest.lookup other).getD 0)) =
        (rest.map (·.1)).map fun other => (other, (((token, n) :: rest).lookup other).getD 0) := by
      refine List.map_congr_left fun other hother => ?_
      have hne : (other == token) = false := by
        refine beq_eq_false_iff_ne.mpr fun heq => hnew ?_
        rwa [← heq]
      rw [List.lookup_cons, hne]
    rw [List.map_cons, List.map_cons, ← htail, ← ih hrest]
    simp

/-- Tallies of the same tokens are the same. -/
theorem Counts.eq {t t' : Tally τ} {tokens : List τ} (h : t.Counts tokens) (h' : t'.Counts tokens) :
    t = t' := by
  have hlisted : ∀ {u : Tally τ}, u.Counts tokens →
      u.counts = tokens.eraseDups.map fun token => (token, tokens.count token) := by
    intro u hu
    have hidentifiers : u.counts.map (·.1) = tokens.eraseDups := hu.identifiers
    have hnodup : (u.counts.map (·.1)).Nodup := by
      rw [hidentifiers]
      exact nodup_eraseDups tokens
    rw [counts_eq_map hnodup, hidentifiers]
    exact List.map_congr_left fun token _ => congrArg (token, ·) (hu.count token)
  cases t
  cases t'
  exact congrArg Tally.mk ((hlisted h).trans (hlisted h').symm)

/-! ### Numbers of tokens -/

omit [LawfulBEq τ] in
/-- A token that is added is one more. -/
theorem total_add (t : Tally τ) (token : τ) : (t.add token).total = t.total + 1 := by
  show (bump token t.counts).foldr (fun entry rest => entry.2 + rest) 0 = _
  rw [total]
  generalize t.counts = l
  induction l with
  | nil => rfl
  | cons entry rest ih =>
    obtain ⟨other, n⟩ := entry
    rw [bump]
    split
    · simp only [List.foldr_cons]
      omega
    · simp only [List.foldr_cons, ih]
      omega

omit [LawfulBEq τ] in
/-- Each token that is added is one more. -/
theorem total_addAll (t : Tally τ) (tokens : List τ) :
    (tokens.foldl Tally.add t).total = t.total + tokens.length := by
  induction tokens generalizing t with
  | nil => rfl
  | cons token rest ih =>
    rw [List.foldl_cons, ih, total_add, List.length_cons]
    omega

omit [LawfulBEq τ] in
/-- All tokens that are added occur. -/
theorem Positive.addAll {t : Tally τ} (h : t.Positive) (tokens : List τ) :
    (tokens.foldl Tally.add t).Positive := by
  induction tokens generalizing t with
  | nil => exact h
  | cons token rest ih => exact ih (h.add token)

omit [BEq τ] [LawfulBEq τ] in
/-- There are no more different tokens than tokens. -/
theorem Positive.distinct_le_total {t : Tally τ} (h : t.Positive) : t.distinct ≤ t.total := by
  unfold Positive at h
  rw [distinct, total]
  generalize t.counts = l at h
  induction l with
  | nil => exact Nat.le_refl 0
  | cons entry rest ih =>
    obtain ⟨hentry, hrest⟩ := List.forall_mem_cons.mp h
    have := ih hrest
    rw [List.length_cons, List.foldr_cons]
    omega

omit [BEq τ] [LawfulBEq τ] in
/-- Replacing the tokens leaves the numbers as they are. -/
@[simp] theorem total_map {σ : Type} (f : τ → σ) (t : Tally τ) : (t.map f).total = t.total := by
  simp [total, map, List.foldr_map]

omit [BEq τ] [LawfulBEq τ] in
@[simp] theorem distinct_map {σ : Type} (f : τ → σ) (t : Tally τ) :
    (t.map f).distinct = t.distinct := by
  simp [distinct, map]

omit [BEq τ] [LawfulBEq τ] in
@[simp] theorem identifiers_map {σ : Type} (f : τ → σ) (t : Tally τ) :
    (t.map f).identifiers = t.identifiers.map f := by
  simp [identifiers, map]

/-- A tally of some tokens comes about by adding them. -/
theorem Counts.eq_addAll {t : Tally τ} {tokens : List τ} (h : t.Counts tokens) :
    t = tokens.foldl Tally.add {} :=
  h.eq (counts_empty.addAll tokens)

/-- The number of tokens. -/
theorem Counts.total_eq {t : Tally τ} {tokens : List τ} (h : t.Counts tokens) :
    t.total = tokens.length := by
  rw [h.eq_addAll, total_addAll]
  exact Nat.zero_add _

/-! ### One tally after another -/

/-- One tally after another. Tokens that were listed before stay where they are, the others come
behind them. -/
def join (a b : Tally τ) : Tally τ :=
  ⟨a.counts.map (fun entry => (entry.1, entry.2 + b.count entry.1)) ++
    b.counts.filter fun entry => !a.identifiers.contains entry.1⟩

omit [LawfulBEq τ] in
/-- The tokens of the first tally come first, then those that are new in the second. -/
theorem identifiers_join (a b : Tally τ) :
    (a.join b).identifiers =
      a.identifiers ++ b.identifiers.filter fun token => !a.identifiers.contains token := by
  simp only [join, identifiers, List.map_append, List.map_map, List.filter_map]
  rfl

/-- A number that is looked up after more was added to all of them. -/
theorem lookup_map_add (more : τ → Nat) (l : List (τ × Nat)) (token : τ) :
    (l.map fun entry => (entry.1, entry.2 + more entry.1)).lookup token =
      (l.lookup token).map (· + more token) := by
  induction l with
  | nil => rfl
  | cons entry rest ih =>
    rw [List.map_cons, List.lookup_cons, List.lookup_cons, ih]
    split
    · rename_i heq
      rw [beq_iff_eq.mp heq]
      rfl
    · rfl

/-- A token that is kept is looked up as before. -/
theorem lookup_filter_of_keep (keep : τ → Bool) {token : τ} (h : keep token = true)
    (l : List (τ × Nat)) : (l.filter fun entry => keep entry.1).lookup token = l.lookup token := by
  induction l with
  | nil => rfl
  | cons entry rest ih =>
    rw [List.filter_cons, List.lookup_cons]
    by_cases heq : token = entry.1
    · rw [if_pos (heq ▸ h), List.lookup_cons, heq, beq_self_eq_true]
    · have hne : (token == entry.1) = false := beq_eq_false_iff_ne.mpr heq
      rw [hne]
      split
      · rw [List.lookup_cons, hne, ih]
      · exact ih

/-- A token occurs as often as in both. -/
theorem count_join (a b : Tally τ) (token : τ) :
    (a.join b).count token = a.count token + b.count token := by
  show (List.lookup token (_ ++ _)).getD 0 = (a.counts.lookup token).getD 0 + b.count token
  rw [List.lookup_append, lookup_map_add b.count]
  cases hlookup : a.counts.lookup token with
  | some n => rfl
  | none =>
    -- The first tally does not list the token, so the second keeps it.
    have hkeep : (!a.identifiers.contains token) = true := by
      rw [List.lookup_eq_none_iff] at hlookup
      simp only [Bool.not_eq_true', List.contains_eq_mem, decide_eq_false_iff_not]
      intro hmem
      obtain ⟨entry, hentry, heq⟩ := List.mem_map.mp hmem
      have hne := hlookup entry hentry
      simp [heq] at hne
    rw [Option.map_none, Option.none_or,
      lookup_filter_of_keep (fun token => !a.identifiers.contains token) hkeep]
    simp [count]

/-- Joined tallies count the tokens of both. -/
theorem Counts.join {a b : Tally τ} {tokens more : List τ} (ha : a.Counts tokens)
    (hb : b.Counts more) : (a.join b).Counts (tokens ++ more) where
  identifiers := by
    have hlisted : ∀ token, a.identifiers.contains token = tokens.contains token := by
      intro token
      rw [ha.identifiers]
      simp
    rw [identifiers_join, ha.identifiers, hb.identifiers, List.eraseDups_append, ← ha.identifiers]
    simp only [hlisted]
    exact congrArg _ (eraseDups_filter _ more).symm
  count token := by
    rw [count_join, ha.count, hb.count, List.count_append]

/-- Tokens that are added to a tally are a tally of their own behind it. -/
theorem Counts.addAll_eq_join {t : Tally τ} {tokens : List τ} (h : t.Counts tokens)
    (more : List τ) : more.foldl Tally.add t = t.join (more.foldl Tally.add {}) := by
  have hmore : (more.foldl Tally.add {} : Tally τ).Counts more := counts_empty.addAll more
  exact (h.addAll more).eq (h.join hmore)

end Tally

end CodeMetrics
