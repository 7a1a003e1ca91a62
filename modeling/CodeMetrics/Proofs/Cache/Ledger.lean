import CodeMetrics.Proofs.Cache.Operation
import Mathlib.Algebra.GroupWithZero.Nat
import Mathlib.Data.List.DropRight

/-!
# `CodeMetrics.Proofs.Cache.Ledger`: what comes into a cache and what leaves it

An entry comes into a cache in one way: a result is stored. It can leave in five ways. Another result
is stored under its key, it is the oldest one when room is needed, a request finds it too old,
a cleaning finds it too old, or everything is cleared. `balanced_run` is the account of that.
As many results were stored as there are entries now and entries that left.

`sound_and_balanced` puts it together with what else can be relied on: the entries fit and their keys
are unique, an answer is the result that was stored last and it is not too old, cleaning drops
exactly the entries that are too old, and the statistics count requests, results and entries
that made room since they were last reset.
-/

set_option autoImplicit false

namespace CodeMetrics

namespace Cache

variable {α : Type} {c : Cache α} {limit : Option Number}

/-! ### Entries that are too old -/

/-- Whether an entry has reached the greatest age, if there is one. -/
def isExpired (limit : Option Number) (now : Instant) (e : CacheEntry α) : Bool :=
  match limit, now.value.minus e.time with
  | some n, .ok age => !age.below n
  | _, _ => false

/-- The entries of a cache are too old or not by their age. -/
theorem Sound.isFresh_eq (h : c.Sound) (hage : c.maxAge = limit.map .seconds) (now : Instant)
    {e : CacheEntry α} (he : e ∈ c.entries) :
    c.isFresh now.value e = .ok (!isExpired limit now e) := by
  obtain ⟨t, ht⟩ := h.times e he
  obtain ⟨age, hdifference⟩ := now.exists_age t
  rw [isFresh, hage]
  unfold isExpired
  rw [ht, hdifference]
  cases limit with
  | none => rfl
  | some n =>
    show Except.ok (age.below n) = Except.ok (!!age.below n)
    rw [Bool.not_not]

/-- Cleaning drops the entries that are too old, says how many there were, and leaves the others
as they stand. -/
theorem Sound.cleanupExpired_eq (h : c.Sound) (hage : c.maxAge = limit.map .seconds)
    (now : Instant) :
    c.cleanupExpired now.value = .ok ((c.entries.filter (isExpired limit now)).length,
      { c with entries := c.entries.filter fun e => !isExpired limit now e }) := by
  obtain ⟨kept, hkept⟩ := h.exists_freshAmong now fun e (he : e ∈ c.entries) => he
  have hfilter : kept = c.entries.filter fun e => !isExpired limit now e := by
    rw [freshAmong_eq_filter hkept]
    refine List.filter_congr fun e he => ?_
    rw [h.isFresh_eq hage now he]
    rfl
  have hsplit := List.length_eq_length_filter_add (l := c.entries) (isExpired limit now)
  have hcount : c.entries.length - (c.entries.filter fun e => !isExpired limit now e).length =
      (c.entries.filter (isExpired limit now)).length := by omega
  rw [cleanupExpired, hkept, hfilter]
  show Except.ok (_ - _, _) = _
  rw [hcount]

/-- If keys are unique, only one entry has the key of an entry. -/
theorem filter_key_eq (hkeys : c.keys.Nodup) {e : CacheEntry α} (he : e ∈ c.entries)
    (keep : CacheEntry α → Bool) :
    (c.entries.filter fun other => other.key == e.key && keep other).length =
      if keep e then 1 else 0 := by
  have hsame : c.entries.filter (fun other => other.key == e.key && keep other) =
      (c.entries.filter fun other => other.key == e.key).filter keep := by
    rw [List.filter_filter]
    exact List.filter_congr fun other _ => Bool.and_comm _ _
  have hone : c.entries.filter (fun other => other.key == e.key) = [e] := by
    have hsplit := List.length_eq_length_filter_add (l := c.entries) (·.key == e.key)
    have hothers : (c.entries.filter fun other => !(other.key == e.key)).length + 1 =
        c.entries.length := length_without hkeys he
    have hlength : (c.entries.filter (·.key == e.key)).length = 1 := by omega
    obtain ⟨other, hother⟩ := List.length_eq_one_iff.mp hlength
    have hmem : e ∈ c.entries.filter (·.key == e.key) := List.mem_filter.mpr ⟨he, by simp⟩
    rw [hother] at hmem ⊢
    rw [List.mem_singleton.mp hmem]
  rw [hsame, hone]
  cases hkeep : keep e <;> simp [hkeep]

/-! ### What leaves -/

/-- Whether an operation stores a result. -/
def Op.isPut : Op α → Bool
  | .put .. => true
  | _ => false

/-- Whether an operation is a request. -/
def Op.isGet : Op α → Bool
  | .get .. => true
  | _ => false

/-- Whether an operation resets the statistics. -/
def Op.resets : Op α → Bool
  | .resetStatistics => true
  | _ => false

/-- The number of entries that are replaced by an operation. -/
def Op.overwritten (c : Cache α) : Op α → Nat
  | .put _ key _ _ => if key ∈ c.keys then 1 else 0
  | _ => 0

/-- The number of entries that make room in an operation: the oldest one if the key is new and
there is no room. -/
def Op.evicted (c : Cache α) : Op α → Nat
  | .put _ key _ _ => if key ∉ c.keys ∧ c.maxSize ≤ c.entries.length then 1 else 0
  | _ => 0

/-- The number of entries that are too old and are looked at by an operation. -/
def Op.outdated (limit : Option Number) (c : Cache α) : Op α → Nat
  | .get now key => (c.entries.filter fun e => e.key == key && isExpired limit now e).length
  | .cleanupExpired now => (c.entries.filter (isExpired limit now)).length
  | _ => 0

/-- The number of entries that are cleared by an operation. -/
def Op.cleared (c : Cache α) : Op α → Nat
  | .clear => c.entries.length
  | _ => 0

/-- One operation keeps the account: what is stored and what was there is what is there now and
what left. -/
theorem Effect.balanced {op : Op α} {next : Cache α} (h : Effect c op next) (hsound : c.Sound)
    (hage : c.maxAge = limit.map .seconds) :
    (if op.isPut then 1 else 0) + c.entries.length =
      next.entries.length + op.overwritten c + op.evicted c + op.outdated limit c + op.cleared c := by
  cases h with
  | @hit now e mem fresh =>
    have hlength := length_without hsound.keys mem
    have hfresh : isExpired limit now e = false := by
      rw [hsound.isFresh_eq hage now mem] at fresh
      simpa using fresh
    have hnone := filter_key_eq hsound.keys mem (isExpired limit now)
    rw [hfresh, if_neg Bool.false_ne_true] at hnone
    show 0 + c.entries.length = (c.without e.key ++ [e]).length + 0 + 0 +
      (c.entries.filter fun other => other.key == e.key && isExpired limit now other).length + 0
    rw [hnone, List.length_append, List.length_singleton]
    omega
  | @expired now e mem old =>
    have hlength := length_without hsound.keys mem
    have hold : isExpired limit now e = true := by
      rw [hsound.isFresh_eq hage now mem] at old
      simpa using old
    have hone := filter_key_eq hsound.keys mem (isExpired limit now)
    rw [hold, if_pos rfl] at hone
    show 0 + c.entries.length = (c.without e.key).length + 0 + 0 +
      (c.entries.filter fun other => other.key == e.key && isExpired limit now other).length + 0
    omega
  | @absent now key missing =>
    have hnone : (c.entries.filter fun e => e.key == key && isExpired limit now e) = [] := by
      refine List.filter_eq_nil_iff.mpr fun e he hboth => missing ?_
      rw [Bool.and_eq_true, beq_iff_eq] at hboth
      exact mem_keys.mpr ⟨e, he, hboth.1⟩
    show 0 + c.entries.length = c.entries.length + 0 + 0 +
      (c.entries.filter fun e => e.key == key && isExpired limit now e).length + 0
    rw [hnone, List.length_nil]
    omega
  | @overwritten now treeHash value e mem =>
    have hlength := length_without hsound.keys mem
    have hkey : e.key ∈ c.keys := mem_keys.mpr ⟨e, mem, rfl⟩
    show 1 + c.entries.length = (c.without e.key ++ [_]).length + (if e.key ∈ c.keys then 1 else 0) +
      (if e.key ∉ c.keys ∧ c.maxSize ≤ c.entries.length then 1 else 0) + 0 + 0
    rw [if_pos hkey, if_neg fun hnew => hnew.1 hkey, List.length_append, List.length_singleton]
    omega
  | @evicted now key treeHash value missing full =>
    -- There is an oldest entry, since a full cache is not empty.
    have hroom := hsound.room
    show 1 + c.entries.length = (c.entries.drop 1 ++ [_]).length + (if key ∈ c.keys then 1 else 0) +
      (if key ∉ c.keys ∧ c.maxSize ≤ c.entries.length then 1 else 0) + 0 + 0
    rw [if_neg missing, if_pos ⟨missing, full⟩, List.length_append, List.length_drop,
      List.length_singleton]
    omega
  | @added now key treeHash value missing room =>
    show 1 + c.entries.length = (c.entries ++ [_]).length + (if key ∈ c.keys then 1 else 0) +
      (if key ∉ c.keys ∧ c.maxSize ≤ c.entries.length then 1 else 0) + 0 + 0
    rw [if_neg missing, if_neg fun hfull => Nat.not_le_of_lt room hfull.2, List.length_append,
      List.length_singleton]
    omega
  | @cleaned now kept fresh =>
    have hkept : kept = c.entries.filter fun e => !isExpired limit now e := by
      rw [freshAmong_eq_filter fresh]
      refine List.filter_congr fun e he => ?_
      rw [hsound.isFresh_eq hage now he]
      rfl
    have hsplit := List.length_eq_length_filter_add (l := c.entries) (isExpired limit now)
    show 0 + c.entries.length = kept.length + 0 + 0 +
      (c.entries.filter (isExpired limit now)).length + 0
    rw [hkept]
    omega
  | cleared =>
    show 0 + c.entries.length = 0 + 0 + 0 + 0 + c.entries.length
    omega
  | reset =>
    show 0 + c.entries.length = c.entries.length + 0 + 0 + 0 + 0
    omega

/-- What operations count, added up over all moments of a run. -/
def total (count : Cache α → Op α → Nat) (moments : List (Cache α × Op α)) : Nat :=
  (moments.map fun moment => count moment.1 moment.2).sum

theorem total_concat (count : Cache α → Op α → Nat) (moments : List (Cache α × Op α))
    (moment : Cache α × Op α) :
    total count (moments ++ [moment]) = total count moments + count moment.1 moment.2 := by
  simp [total]

/-- Over any operations on a cache that was empty at first, as many results were stored as there are
entries now and entries that were replaced, made room, were too old or were cleared. -/
theorem balanced_run (hsound : c.Sound) (hempty : c.entries = [])
    (hage : c.maxAge = limit.map .seconds) (ops : List (Op α)) :
    ops.countP Op.isPut = (c.run ops).entries.length +
      total (fun c op => op.overwritten c) (c.trace ops) +
      total (fun c op => op.evicted c) (c.trace ops) +
      total (fun c op => op.outdated limit c) (c.trace ops) +
      total (fun c op => op.cleared c) (c.trace ops) := by
  induction ops using List.reverseRecOn with
  | nil => simp [hempty, trace, total]
  | append_singleton ops op ih =>
    have hlimit := (hsound.run_limits ops).2.trans hage
    have hstep := ((hsound.run ops).effect_step op).balanced (hsound.run ops) hlimit
    rw [List.countP_append, List.countP_singleton, run_concat, trace_concat]
    simp only [total_concat]
    omega

/-! ### Statistics -/

/-- Unless they are reset, the statistics count requests, results and entries that made room. -/
theorem Effect.counted {op : Op α} {next : Cache α} (h : Effect c op next)
    (hresets : op.resets = false) :
    next.statistics.requests = c.statistics.requests + (if op.isGet then 1 else 0) ∧
    next.statistics.puts = c.statistics.puts + (if op.isPut then 1 else 0) ∧
    next.statistics.evictions = c.statistics.evictions + op.evicted c := by
  cases h with
  | hit mem fresh =>
    refine ⟨?_, rfl, rfl⟩
    show c.statistics.hits + 1 + c.statistics.misses = c.statistics.hits + c.statistics.misses + 1
    omega
  | @overwritten now treeHash value e mem =>
    have hkey : e.key ∈ c.keys := mem_keys.mpr ⟨e, mem, rfl⟩
    have hnone : Op.evicted c (.put now e.key treeHash value) = 0 := if_neg fun hnew => hnew.1 hkey
    exact ⟨rfl, rfl, congrArg (_ + ·) hnone.symm⟩
  | @evicted now key treeHash value missing full =>
    have hone : Op.evicted c (.put now key treeHash value) = 1 := if_pos ⟨missing, full⟩
    exact ⟨rfl, rfl, congrArg (_ + ·) hone.symm⟩
  | @added now key treeHash value missing room =>
    have hnone : Op.evicted c (.put now key treeHash value) = 0 :=
      if_neg fun hfull => Nat.not_le_of_lt room hfull.2
    exact ⟨rfl, rfl, congrArg (_ + ·) hnone.symm⟩
  | reset => cases hresets
  | _ => exact ⟨rfl, rfl, rfl⟩

/-- The operations since the statistics were last reset, each with the cache that it was carried
out on. -/
def sinceReset (c : Cache α) (ops : List (Op α)) : List (Cache α × Op α) :=
  (c.trace ops).rtakeWhile fun moment => !moment.2.resets

/-- After any operations, the statistics have counted those since they were last reset. -/
theorem counted_run (hsound : c.Sound) (hstart : c.statistics = {}) (ops : List (Op α)) :
    let moments := c.sinceReset ops
    (c.run ops).statistics.requests = moments.countP (·.2.isGet) ∧
    (c.run ops).statistics.puts = moments.countP (·.2.isPut) ∧
    (c.run ops).statistics.evictions = total (fun c op => op.evicted c) moments := by
  dsimp only
  induction ops using List.reverseRecOn with
  | nil =>
    rw [run_nil, hstart]
    exact ⟨rfl, rfl, rfl⟩
  | append_singleton ops op ih =>
    have heffect := (hsound.run ops).effect_step op
    rw [run_concat, sinceReset, trace_concat, List.rtakeWhile_concat]
    -- A reset empties the span that is counted, every other operation makes it longer by one.
    cases hresets : op.resets with
    | true =>
      cases op with
      | resetStatistics => exact ⟨rfl, rfl, rfl⟩
      | _ => cases hresets
    | false =>
      obtain ⟨hrequests, hputs, hevictions⟩ := heffect.counted hresets
      simp only [Bool.not_false, if_true, total_concat, List.countP_append, List.countP_singleton]
      exact ⟨hrequests.trans (congrArg (· + _) ih.1), hputs.trans (congrArg (· + _) ih.2.1),
        hevictions.trans (congrArg (· + _) ih.2.2)⟩

/-! ### The account of a cache -/

/-- A request is answered if and only if there is an entry under its key that is not too old,
and then with its result. -/
theorem Sound.get_answer (h : c.Sound) (hage : c.maxAge = limit.map .seconds) (now : Instant)
    (key : String) : ∃ answer next, c.get now.value key = .ok (answer, next) ∧
      ∀ value, answer = some value ↔
        ∃ e ∈ c.entries, e.key = key ∧ e.value = value ∧ isExpired limit now e = false := by
  rcases h.key_cases now key with hmissing | ⟨e, he, rfl, hfresh | hold⟩
  · refine ⟨_, _, get_of_missing hmissing now.value, fun value => ⟨(nomatch ·), ?_⟩⟩
    rintro ⟨e, he, hkey, -⟩
    exact absurd (mem_keys.mpr ⟨e, he, hkey⟩) hmissing
  · refine ⟨_, _, get_of_fresh h.keys he hfresh, fun value => ⟨?_, ?_⟩⟩
    · rintro ⟨⟩
      rw [h.isFresh_eq hage now he] at hfresh
      exact ⟨e, he, rfl, rfl, by simpa using hfresh⟩
    · rintro ⟨other, hother, hkey, rfl, -⟩
      rw [List.inj_on_of_nodup_map h.keys hother he hkey]
  · refine ⟨_, _, get_of_old h.keys he hold, fun value => ⟨(nomatch ·), ?_⟩⟩
    rintro ⟨other, hother, hkey, -, hyoung⟩
    -- The entry is the one that was found to be too old.
    rw [List.inj_on_of_nodup_map h.keys hother he hkey] at hyoung
    rw [h.isFresh_eq hage now he, hyoung] at hold
    cases hold

/-- An entry is not too old if its age is below the greatest age. -/
theorem Sound.exists_age_below (h : c.Sound) {now : Instant} {e : CacheEntry α}
    (he : e ∈ c.entries) (hyoung : isExpired limit now e = false) :
    ∀ n ∈ limit, ∃ age, now.value.minus e.time = .ok age ∧ age.below n = true := by
  rintro n ⟨⟩
  obtain ⟨t, ht⟩ := h.times e he
  obtain ⟨age, hdifference⟩ := now.exists_age t
  rw [← ht] at hdifference
  unfold isExpired at hyoung
  rw [hdifference] at hyoung
  exact ⟨age, hdifference, by simpa using hyoung⟩

/-- After any operations on a new cache, at any readings of the clock: the entries fit and no key is
there twice. A request is answered if there is an entry under its key that is not too old, with the
result that was stored last under the key, if its age is below the greatest age. Cleaning drops the
entries that are too old, says how many they were, and keeps the others in their order. The
statistics have counted the requests, the results and the entries that made room since they were last
reset. And as many results were stored as there are entries now and entries that left. -/
theorem sound_and_balanced {size : Nat} (created : create (.int size) (limit.map .seconds) = .ok c)
    (ops : List (Op α)) :
    let later := c.run ops
    let moments := c.sinceReset ops
    (later.entries.length ≤ size ∧ later.keys.Nodup) ∧
    (∀ (now : Instant) key, ∃ answer next, later.get now.value key = .ok (answer, next) ∧
      (answer.isSome ↔ ∃ e ∈ later.entries, e.key = key ∧ isExpired limit now e = false) ∧
      ∀ value ∈ answer, ∃ e, LatestPut ops e ∧ e.key = key ∧ e.value = value ∧
        ∀ n ∈ limit, ∃ age, now.value.minus e.time = .ok age ∧ age.below n = true) ∧
    (∀ now : Instant, later.cleanupExpired now.value =
      .ok ((later.entries.filter (isExpired limit now)).length,
        { later with entries := later.entries.filter fun e => !isExpired limit now e })) ∧
    (later.statistics.hits + later.statistics.misses = moments.countP (·.2.isGet) ∧
      later.statistics.puts = moments.countP (·.2.isPut) ∧
      later.statistics.evictions = total (fun c op => op.evicted c) moments) ∧
    ops.countP Op.isPut = later.entries.length +
      total (fun c op => op.overwritten c) (c.trace ops) +
      total (fun c op => op.evicted c) (c.trace ops) +
      total (fun c op => op.outdated limit c) (c.trace ops) +
      total (fun c op => op.cleared c) (c.trace ops) := by
  have hsound := sound_create created
  obtain ⟨-, rfl⟩ := create_cases created
  have hrun := hsound.run ops
  obtain ⟨hsize, hage⟩ := hsound.run_limits ops
  refine ⟨⟨hrun.size.trans_eq hsize, hrun.keys⟩, ?_, fun now => hrun.cleanupExpired_eq hage now,
    counted_run hsound rfl ops, balanced_run hsound rfl rfl ops⟩
  intro now key
  obtain ⟨answer, next, hget, hanswer⟩ := hrun.get_answer hage now key
  refine ⟨answer, next, hget, ?_, ?_⟩
  · rw [Option.isSome_iff_exists]
    constructor
    · rintro ⟨value, hvalue⟩
      obtain ⟨e, he, hkey, -, hyoung⟩ := (hanswer value).mp hvalue
      exact ⟨e, he, hkey, hyoung⟩
    · rintro ⟨e, he, hkey, hyoung⟩
      exact ⟨e.value, (hanswer e.value).mpr ⟨e, he, hkey, rfl, hyoung⟩⟩
  · intro value hvalue
    obtain ⟨e, he, hkey, hsame, hyoung⟩ := (hanswer value).mp hvalue
    exact ⟨e, latestPut_run hsound rfl ops e he, hkey, hsame, hrun.exists_age_below he hyoung⟩

namespace Sample

/-- Operations in which an entry leaves in each of the five ways: `a` is replaced, `b` makes room,
`a` is too old when it is asked for, `c` is too old when the cache is cleaned, and `d` is
cleared. -/
def everyWayOut : List (Op Nat) :=
  [.put (.second 0) "a" "" 1, .put (.second 0) "b" "" 2, .put (.second 1) "a" "" 3,
    .put (.second 2) "c" "" 4, .resetStatistics, .get (.second 11) "a", .put (.second 11) "d" "" 5,
    .cleanupExpired (.second 12), .clear, .put (.second 13) "e" "" 6, .get (.second 22) "e"]

end Sample

/-- Six results were stored, and one of them is left. Of the others, two were too old. -/
theorem sound_and_balanced_every_way_out :
    let c : Cache Nat := { maxSize := 2, maxAge := some (.seconds 10) }
    create (.int 2) (some (.seconds 10)) = .ok c ∧ Sample.everyWayOut.countP Op.isPut = 6 ∧
      total (fun c op => op.overwritten c) (c.trace Sample.everyWayOut) = 1 ∧
      total (fun c op => op.evicted c) (c.trace Sample.everyWayOut) = 1 ∧
      total (fun c op => op.outdated (some 10) c) (c.trace Sample.everyWayOut) = 2 ∧
      total (fun c op => op.cleared c) (c.trace Sample.everyWayOut) = 1 ∧
      (c.run Sample.everyWayOut).entries.length = 1 ∧
      (c.run Sample.everyWayOut).statistics.puts = 2 := by
  intro c
  have hcreated : create (.int ((2 : Nat) : Int)) ((some 10 : Option Number).map .seconds) = .ok c :=
    rfl
  obtain ⟨-, -, -, ⟨-, hputs, -⟩, hbalance⟩ :=
    sound_and_balanced hcreated Sample.everyWayOut
  have hstored : Sample.everyWayOut.countP Op.isPut = 6 := by decide +kernel
  have hoverwritten : total (fun c op => op.overwritten c) (c.trace Sample.everyWayOut) = 1 := by
    decide +kernel
  have hevicted : total (fun c op => op.evicted c) (c.trace Sample.everyWayOut) = 1 := by
    decide +kernel
  have houtdated : total (fun c op => op.outdated (some 10) c) (c.trace Sample.everyWayOut) = 2 := by
    decide +kernel
  have hcleared : total (fun c op => op.cleared c) (c.trace Sample.everyWayOut) = 1 := by
    decide +kernel
  have hlately : (c.sinceReset Sample.everyWayOut).countP (·.2.isPut) = 2 := by decide +kernel
  rw [hlately] at hputs
  rw [hstored, hoverwritten, hevicted, houtdated, hcleared] at hbalance
  exact ⟨hcreated, hstored, hoverwritten, hevicted, houtdated, hcleared, by omega, hputs⟩

end Cache

end CodeMetrics
