import CodeMetrics.Proofs.Cache.Operation
import Mathlib.Data.List.Dedup
import Mathlib.Data.List.DropRight

/-!
# `CodeMetrics.Proofs.Cache.Recency`: a cache holds what was used last

A cache is changed in place: entries move behind the others when they are found, are replaced
when they are stored again, and leave at the front when there is no room. If entries have no
greatest age, the result can be said without any of that. Storing under a key is a use of the key,
and so is a request for it that is answered. The keys of the cache are the last different ones
that were used since the cache was last cleared, as many as there is room for (`recent`), and
they stand in the order of their last use.

`exact_lru` is the main result. It follows operation by operation: a use moves a key of `recent`
behind the others (`recent_concat_of_mem`), or it adds a new one, for which the first one leaves if
there are enough (`recent_concat_of_full`, `recent_concat_of_room`).
-/

set_option autoImplicit false

namespace CodeMetrics

namespace Cache

/-! ### The last different keys -/

section Recent

variable {β : Type} {n : Nat}

/-- The end of two lists is the end of the second, if that is long enough. -/
theorem rtake_append_of_le {xs ys : List β} (h : n ≤ ys.length) :
    (xs ++ ys).rtake n = ys.rtake n := by
  have hdrop : (xs ++ ys).length - n = xs.length + (ys.length - n) := by
    rw [List.length_append]
    omega
  rw [List.rtake, List.rtake, hdrop, List.drop_length_add_append]

/-- A short list is its own end. -/
theorem rtake_of_length_le {xs : List β} (h : xs.length ≤ n) : xs.rtake n = xs := by
  rw [List.rtake, Nat.sub_eq_zero_of_le h, List.drop_zero]

theorem length_rtake_le (xs : List β) : (xs.rtake n).length ≤ n := by
  rw [List.rtake, List.length_drop]
  omega

/-- What comes before the end of a list, if the end is not all of it. -/
theorem exists_append_rtake (n : Nat) (xs : List β) :
    ∃ before, xs = before ++ xs.rtake n ∧ (before = [] ∨ (xs.rtake n).length = n) := by
  refine ⟨xs.take (xs.length - n), (List.take_append_drop _ _).symm, ?_⟩
  rw [List.rtake, List.length_drop]
  by_cases h : xs.length ≤ n
  · exact .inl (by rw [Nat.sub_eq_zero_of_le h, List.take_zero])
  · exact .inr (by omega)

/-- Without duplicates, a use moves a key behind all others. -/
theorem dedup_concat (uses : List String) (key : String) :
    (uses ++ [key]).dedup = uses.dedup.filter (· != key) ++ [key] := by
  induction uses with
  | nil => rfl
  | cons first rest ih =>
    rw [List.cons_append, List.dedup_cons, List.dedup_cons, ih]
    by_cases hkey : first = key
    · subst hkey
      rw [if_pos (by simp)]
      split <;> simp
    · by_cases hmem : first ∈ rest
      · rw [if_pos (List.mem_append_left _ hmem), if_pos hmem]
      · rw [if_neg (by simp [hmem, hkey]), if_neg hmem, List.filter_cons, if_pos (by simpa using hkey),
          List.cons_append]

/-- The last `n` different keys of a history, in the order of their last use. -/
def recent (n : Nat) (uses : List String) : List String :=
  uses.dedup.rtake n

theorem recent_nil (n : Nat) : recent n [] = [] :=
  List.rtake_nil n

/-- No key is there twice. -/
theorem nodup_recent (n : Nat) (uses : List String) : (recent n uses).Nodup :=
  (List.nodup_dedup uses).sublist (List.drop_sublist _ _)

theorem length_recent_le (n : Nat) (uses : List String) : (recent n uses).length ≤ n :=
  length_rtake_le _

/-- The last different keys after a use: those before it, less the key, and then the key. -/
theorem recent_concat (uses : List String) (key : String) :
    recent (n + 1) (uses ++ [key]) = (uses.dedup.filter (· != key)).rtake n ++ [key] := by
  rw [recent, dedup_concat, List.rtake_concat_succ]

/-- A key that is among the last ones moves behind the others. -/
theorem recent_concat_of_mem {uses : List String} {key : String} (hkey : key ∈ recent n uses) :
    recent n (uses ++ [key]) = (recent n uses).filter (· != key) ++ [key] := by
  cases n with
  | zero => simp [recent] at hkey
  | succ n =>
    obtain ⟨before, hsplit, hfull⟩ := exists_append_rtake (n + 1) uses.dedup
    have hlength : ((recent (n + 1) uses).filter (· != key)).length + 1 =
        (recent (n + 1) uses).length := by
      have hpos := List.length_pos_of_mem hkey
      rw [← (nodup_recent (n + 1) uses).erase_eq_filter, List.length_erase_of_mem hkey]
      omega
    have hbound := length_recent_le (n + 1) uses
    rw [recent_concat, hsplit, List.filter_append, ← recent]
    congr 1
    -- Either nothing stands before the last keys, or there are `n + 1` of them, and without the
    -- key there are `n`.
    rcases hfull with rfl | hfull
    · rw [List.filter_nil, List.nil_append, rtake_of_length_le (by omega)]
    · rw [← recent] at hfull
      rw [rtake_append_of_le (by omega), rtake_of_length_le (by omega)]

/-- A key that is not among the last ones is added behind them. -/
theorem recent_concat_of_not_mem {uses : List String} {key : String}
    (hkey : key ∉ recent (n + 1) uses) :
    recent (n + 1) (uses ++ [key]) = (recent (n + 1) uses).rtake n ++ [key] := by
  obtain ⟨before, hsplit, hfull⟩ := exists_append_rtake (n + 1) uses.dedup
  have hothers : (recent (n + 1) uses).filter (· != key) = recent (n + 1) uses :=
    List.filter_eq_self.mpr fun other hother => by
      simpa using fun heq : other = key => hkey (heq ▸ hother)
  rw [recent_concat, hsplit, List.filter_append, ← recent, hothers]
  congr 1
  rcases hfull with rfl | hfull
  · rw [List.filter_nil, List.nil_append]
  · rw [← recent] at hfull
    exact rtake_append_of_le (by omega)

/-- If there are enough keys already, the first one leaves for a new one. -/
theorem recent_concat_of_full {uses : List String} {key : String} (hpos : 0 < n)
    (hkey : key ∉ recent n uses) (hfull : n ≤ (recent n uses).length) :
    recent n (uses ++ [key]) = (recent n uses).drop 1 ++ [key] := by
  cases n with
  | zero => cases hpos
  | succ n =>
    have hbound := length_recent_le (n + 1) uses
    have hone : (recent (n + 1) uses).length - n = 1 := by omega
    rw [recent_concat_of_not_mem hkey, List.rtake, hone]

/-- If there are not enough keys, all of them stay. -/
theorem recent_concat_of_room {uses : List String} {key : String} (hkey : key ∉ recent n uses)
    (hroom : (recent n uses).length < n) :
    recent n (uses ++ [key]) = recent n uses ++ [key] := by
  cases n with
  | zero => cases hroom
  | succ n => rw [recent_concat_of_not_mem hkey, rtake_of_length_le (Nat.le_of_lt_succ hroom)]

end Recent

/-! ### Uses -/

variable {α : Type}

/-- The key that an operation uses: the one that it stores under, or the one of a request that
is answered. -/
def Op.use? (c : Cache α) : Op α → Option String
  | .put _ key _ _ => some key
  | .get now key =>
    match c.get now.value key with
    | .ok (some _, _) => some key
    | _ => none
  | _ => none

/-- Whether an operation drops all entries. -/
def Op.clears : Op α → Bool
  | .clear => true
  | _ => false

/-- The keys that were used since the cache was last cleared, one after the other. -/
def uses (c : Cache α) (ops : List (Op α)) : List String :=
  ((c.trace ops).rtakeWhile fun moment => !moment.2.clears).filterMap fun moment =>
    moment.2.use? moment.1

/-- The uses after another operation. -/
theorem uses_concat (c : Cache α) (ops : List (Op α)) (op : Op α) :
    c.uses (ops ++ [op]) =
      if op.clears then [] else c.uses ops ++ (op.use? (c.run ops)).toList := by
  rw [uses, trace_concat, List.rtakeWhile_concat]
  cases hclears : op.clears with
  | true => simp
  | false =>
    simp only [Bool.not_false, if_true, Bool.false_eq_true, if_false, List.filterMap_append]
    cases hused : op.use? (c.run ops) <;> simp [uses, hused]

variable {c : Cache α}

/-- Without a greatest age, nothing is too old. -/
theorem isFresh_of_ageless (hage : c.maxAge = none) (now : Number) (e : CacheEntry α) :
    c.isFresh now e = .ok true := by
  rw [isFresh, hage]

/-- One operation keeps the keys the last different ones that were used. -/
theorem Effect.keys_eq_recent {op : Op α} {next : Cache α} (h : Effect c op next)
    (hsound : c.Sound) (hage : c.maxAge = none) {used : List String}
    (hkeys : c.keys = recent c.maxSize used) :
    next.keys = recent c.maxSize (if op.clears then [] else used ++ (op.use? c).toList) := by
  have hlength : c.entries.length = (recent c.maxSize used).length := by
    rw [← hkeys, keys, List.length_map]
  cases h with
  | @hit now e mem fresh =>
    have huse : (Op.get now e.key).use? c = some e.key := by
      rw [Op.use?, get_of_fresh hsound.keys mem fresh]
    have hmem : e.key ∈ recent c.maxSize used := hkeys ▸ mem_keys.mpr ⟨e, mem, rfl⟩
    show List.map _ (c.without e.key ++ [e]) = recent _ (used ++ _)
    rw [huse, Option.toList_some, recent_concat_of_mem hmem, List.map_append, map_key_without, hkeys]
    rfl
  | @expired now e mem old =>
    rw [isFresh_of_ageless hage] at old
    cases old
  | @absent now key missing =>
    have huse : (Op.get now key).use? c = none := by
      rw [Op.use?, get_of_missing missing]
    show c.keys = recent _ (used ++ _)
    rw [huse, Option.toList_none, List.append_nil, hkeys]
  | @overwritten now treeHash value e mem =>
    have hmem : e.key ∈ recent c.maxSize used := hkeys ▸ mem_keys.mpr ⟨e, mem, rfl⟩
    show List.map _ (c.without e.key ++ [_]) = recent _ (used ++ [e.key])
    rw [recent_concat_of_mem hmem, List.map_append, map_key_without, hkeys]
    rfl
  | @evicted now key treeHash value missing full =>
    show List.map _ (c.entries.drop 1 ++ [_]) = recent _ (used ++ [key])
    rw [recent_concat_of_full hsound.room (hkeys ▸ missing) (hlength ▸ full), ← hkeys,
      List.map_append, List.map_drop]
    rfl
  | @added now key treeHash value missing room =>
    show List.map _ (c.entries ++ [_]) = recent _ (used ++ [key])
    rw [recent_concat_of_room (hkeys ▸ missing) (hlength ▸ room), ← hkeys, List.map_append]
    rfl
  | @cleaned now kept fresh =>
    -- Nothing is too old, so everything is kept.
    have hkept : kept = c.entries := by
      rw [freshAmong_eq_filter fresh]
      exact List.filter_eq_self.mpr fun e _ => by rw [isFresh_of_ageless hage]; rfl
    show List.map _ kept = recent _ (used ++ [])
    rw [hkept, List.append_nil, ← hkeys]
    rfl
  | cleared => exact (recent_nil _).symm
  | reset =>
    show c.keys = recent _ (used ++ [])
    rw [List.append_nil, hkeys]

/-- After any operations, the keys are the last different ones that were used. -/
theorem keys_run (hsound : c.Sound) (hempty : c.entries = []) (hage : c.maxAge = none)
    (ops : List (Op α)) : (c.run ops).keys = recent c.maxSize (c.uses ops) := by
  induction ops using List.reverseRecOn with
  | nil =>
    rw [run_nil, keys, hempty, uses, trace, List.rtakeWhile_nil, List.filterMap_nil, recent_nil]
    rfl
  | append_singleton ops op ih =>
    obtain ⟨hsize, hlimit⟩ := hsound.run_limits ops
    rw [← hsize] at ih ⊢
    rw [run_concat, uses_concat]
    exact ((hsound.run ops).effect_step op).keys_eq_recent (hsound.run ops) (hlimit.trans hage) ih

/-! ### What is held under a key -/

/-- The result that an operation stores under a key. -/
def Op.putUnder? (key : String) : Op α → Option α
  | .put _ other _ value => if other = key then some value else none
  | _ => none

/-- The result that was stored last under a key. -/
def lastPut? (key : String) (ops : List (Op α)) : Option α :=
  (ops.filterMap (Op.putUnder? key)).getLast?

/-- The entry that was stored last holds the result that was stored last. -/
theorem LatestPut.lastPut?_eq {ops : List (Op α)} {e : CacheEntry α} (h : LatestPut ops e) :
    lastPut? e.key ops = some e.value := by
  obtain ⟨before, after, now, rfl, -, hafter⟩ := h
  have hnone : after.filterMap (Op.putUnder? e.key) = [] := by
    refine List.filterMap_eq_nil_iff.mpr fun op hop => ?_
    have hrenews := hafter op hop
    cases op with
    | put now other treeHash value =>
      exact if_neg (beq_eq_false_iff_ne.mp hrenews)
    | _ => rfl
  rw [lastPut?, List.filterMap_append, List.filterMap_cons, Op.putUnder?, if_pos rfl]
  dsimp only
  rw [hnone, List.getLast?_concat]

/-! ### The least recently used entry leaves -/

/-- The keys after a result was stored, and how many entries were dropped for it. -/
theorem put_keys (hsound : c.Sound) (now : Instant) (key treeHash : String) (value : α) :
    let next := c.put now.value key treeHash value
    (next.keys = if key ∈ c.keys then c.keys.filter (· != key) ++ [key]
      else if c.keys.length = c.maxSize then c.keys.drop 1 ++ [key] else c.keys ++ [key]) ∧
    next.statistics.evictions = c.statistics.evictions +
      if key ∉ c.keys ∧ c.keys.length = c.maxSize then 1 else 0 := by
  have hlength : c.keys.length = c.entries.length := List.length_map _
  have hsize := hsound.size
  have heffect := hsound.effect_step (.put now key treeHash value)
  dsimp only
  rw [step] at heffect
  generalize c.put now.value key treeHash value = next at heffect
  cases heffect with
  | @overwritten _ _ _ e mem =>
    have hmem : e.key ∈ c.keys := mem_keys.mpr ⟨e, mem, rfl⟩
    refine ⟨?_, ?_⟩
    · rw [if_pos hmem, ← map_key_without]
      exact List.map_append
    · rw [if_neg fun h => h.1 hmem]
      rfl
  | evicted missing full =>
    -- A sound cache never exceeds its size, so full means exactly full.
    have hfull : c.keys.length = c.maxSize := by omega
    refine ⟨?_, ?_⟩
    · rw [if_neg missing, if_pos hfull]
      show List.map _ (c.entries.drop 1 ++ [_]) = (c.entries.map _).drop 1 ++ [key]
      rw [← List.map_drop]
      exact List.map_append
    · rw [if_pos ⟨missing, hfull⟩]
      rfl
  | added missing room =>
    have hroom : c.keys.length ≠ c.maxSize := by omega
    refine ⟨?_, ?_⟩
    · rw [if_neg missing, if_neg hroom]
      exact List.map_append
    · rw [if_neg fun h => hroom h.2]
      rfl

/-- A key is given up when a result is stored if it is the first one, the key of the result is
new and there is no room. -/
theorem not_mem_put_keys_iff (hsound : c.Sound) (now : Instant) (key treeHash : String) (value : α)
    {other : String} (hother : other ∈ c.keys) :
    other ∉ (c.put now.value key treeHash value).keys ↔
      c.keys.head? = some other ∧ key ∉ c.keys ∧ c.keys.length = c.maxSize := by
  have hnodup := hsound.keys
  rw [(put_keys hsound now key treeHash value).1]
  by_cases hkey : key ∈ c.keys
  · rw [if_pos hkey]
    by_cases heq : other = key <;> simp [hother, hkey, heq]
  · have hne : other ≠ key := fun heq => hkey (heq ▸ hother)
    rw [if_neg hkey]
    by_cases hfull : c.keys.length = c.maxSize
    · rw [if_pos hfull]
      generalize c.keys = held at hother hnodup hkey hfull
      cases held with
      | nil => cases hother
      | cons first rest =>
        rw [List.nodup_cons] at hnodup
        -- The first key is no other key of the list, so it is gone with the front.
        rcases List.mem_cons.mp hother with rfl | hrest
        · simp [hnodup.1, hne, hfull, hkey]
        · have hfirst : first ≠ other := fun heq => hnodup.1 (heq ▸ hrest)
          simp [hrest, hfirst]
    · rw [if_neg hfull]
      simp [hother, hfull]

/-- A cache without a greatest age holds the last different keys that were used since it was
last cleared, as many as there is room for, in the order of their last use. Each one holds the
result that was stored last under it. So a request is answered if and only if its key is among
them, and storing a result drops the key that was not used for longest, if the key of the
result is not among them and there is no room, and no key otherwise. -/
theorem exact_lru {size : Nat} (created : create (.int size) none = .ok c) (ops : List (Op α)) :
    let held := recent size (c.uses ops)
    (c.run ops).keys = held ∧
    (∀ e ∈ (c.run ops).entries, lastPut? e.key ops = some e.value) ∧
    (∀ now key, ∃ answer next, (c.run ops).get (Instant.value now) key = .ok (answer, next) ∧
      (answer.isSome ↔ key ∈ held) ∧ ∀ value ∈ answer, lastPut? key ops = some value) ∧
    ∀ now key treeHash value,
      let next := (c.run ops).put (Instant.value now) key treeHash value
      (∀ other ∈ held, other ∉ next.keys ↔
        held.head? = some other ∧ key ∉ held ∧ held.length = size) ∧
      next.statistics.evictions = (c.run ops).statistics.evictions +
        if key ∉ held ∧ held.length = size then 1 else 0 := by
  have hsound : c.Sound := @sound_create _ _ _ none created
  obtain ⟨-, rfl⟩ := create_cases created
  have hrun := hsound.run ops
  have hkeys := keys_run hsound rfl rfl ops
  have hlatest := latestPut_run hsound rfl ops
  obtain ⟨hsize, hage⟩ := hsound.run_limits ops
  dsimp only at hkeys hsize ⊢
  -- What is held is stated over the uses. Every part is proved of the keys, which are the same
  -- list.
  rw [← hkeys]
  refine ⟨rfl, fun e he => (hlatest e he).lastPut?_eq, ?_, ?_⟩
  · intro now key
    rcases hrun.key_cases now key with hmissing | ⟨e, he, rfl, hfresh | hold⟩
    · exact ⟨_, _, get_of_missing hmissing now.value, by simpa using hmissing, by simp⟩
    · refine ⟨_, _, get_of_fresh hrun.keys he hfresh, ?_, ?_⟩
      · simpa using mem_keys.mpr ⟨e, he, rfl⟩
      · rintro value ⟨⟩
        exact (hlatest e he).lastPut?_eq
    -- Without a greatest age no entry is ever too old.
    · rw [isFresh_of_ageless hage] at hold
      cases hold
  · intro now key treeHash value
    have hput := (put_keys hrun now key treeHash value).2
    have hgone := fun other (hother : other ∈ _) =>
      not_mem_put_keys_iff hrun now key treeHash value hother
    rw [hsize] at hput hgone
    exact ⟨hgone, hput⟩

/-! ### A cache with room for two -/

namespace Sample

/-- A reading of the clock. -/
def noon : Instant := .second 0

/-- Two results are stored, the first one is asked for, and then a third one is stored. The
request for a key that is not there is no use of it. -/
def threeKeys : List (Op Nat) :=
  [.put noon "a" "" 1, .put noon "b" "" 2, .get noon "a", .get noon "x", .put noon "c" "" 3]

end Sample

/-- The second key was not used for longest when the third one came. -/
theorem exact_lru_three_keys :
    let c : Cache Nat := { maxSize := 2 }
    create (.int 2) none = .ok c ∧ c.uses Sample.threeKeys = ["a", "b", "a", "c"] ∧
      (c.run Sample.threeKeys).keys = ["a", "c"] ∧
      ∃ next, (c.run Sample.threeKeys).get Sample.noon.value "b" = .ok (none, next) := by
  intro c
  have huses : c.uses Sample.threeKeys = ["a", "b", "a", "c"] := by decide
  obtain ⟨hkeys, -, hget, -⟩ := @exact_lru _ c 2 rfl Sample.threeKeys
  obtain ⟨answer, next, hanswer, hsome, -⟩ := hget Sample.noon "b"
  rw [huses] at hkeys hsome
  have hnone : answer = none := by
    rw [← Option.not_isSome_iff_eq_none, hsome]
    decide
  exact ⟨rfl, huses, hkeys.trans (by decide), next, hnone ▸ hanswer⟩

end Cache

end CodeMetrics
