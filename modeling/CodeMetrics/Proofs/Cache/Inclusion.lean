import CodeMetrics.Proofs.Cache.Operation

/-!
# `CodeMetrics.Proofs.Cache.Inclusion`: a larger cache holds at least as much

Two caches of different sizes are used in the same way, operation by operation and with the same
readings of the clock. Then the larger one has every entry of the smaller one, and the entries that
both have stand in the same order (`run_included`). So more room never costs an answer, also where
entries have a greatest age.

Having every entry is not kept by itself. When both caches are asked to store a result under a new
key and only the larger one is full, it would drop an entry that the smaller one keeps. This does
not happen, because the larger cache never has more entries in excess than it has room in excess
(`Included.gap`). If it is full, the smaller one is full as well.
-/

set_option autoImplicit false

namespace CodeMetrics

namespace Cache

variable {α : Type} {small large : Cache α}

/-- The second cache has every entry of the first one, in the same order. It has no more entries
in excess than room in excess, and it has answered at least as many requests. -/
structure Included (small large : Cache α) : Prop where
  entries : small.entries.Sublist large.entries
  gap : large.entries.length + small.maxSize ≤ small.entries.length + large.maxSize
  ages : small.maxAge = large.maxAge
  hits : small.statistics.hits ≤ large.statistics.hits
  misses : large.statistics.misses ≤ small.statistics.misses

namespace Included

/-- Both caches agree on what is too old. -/
theorem isFresh_eq (h : Included small large) (now : Number) (e : CacheEntry α) :
    small.isFresh now e = large.isFresh now e := by
  rw [isFresh, isFresh, h.ages]

/-- Keys of the smaller cache are keys of the larger one. -/
theorem mem_keys (h : Included small large) {key : String} (hkey : key ∈ small.keys) :
    key ∈ large.keys :=
  (h.entries.map CacheEntry.key).subset hkey

/-- Under a key of both caches there is the same entry. -/
theorem mem_of_key (h : Included small large) (hlarge : large.Sound) {e : CacheEntry α}
    (he : e ∈ large.entries) (hkey : e.key ∈ small.keys) : e ∈ small.entries := by
  obtain ⟨e', he', hsame⟩ := Cache.mem_keys.mp hkey
  have heq := List.inj_on_of_nodup_map hlarge.keys (h.entries.subset he') he hsame
  exact heq ▸ he'

/-- Without a key the smaller cache still has less. -/
theorem without (h : Included small large) (key : String) :
    (small.without key).Sublist (large.without key) :=
  h.entries.filter _

/-- Without a key that it does not have, the smaller cache is what it was. -/
theorem entries_without (h : Included small large) {key : String} (missing : key ∉ small.keys) :
    small.entries.Sublist (large.without key) := by
  rw [← without_of_not_mem missing]
  exact h.without key

/-! ### Requests -/

/-- A request that is answered makes an entry the youngest in both caches, or in the larger
one only. -/
theorem get_fresh (h : Included small large) (hsmall : small.Sound) (hlarge : large.Sound)
    {now : Instant} {e : CacheEntry α} (he : e ∈ large.entries)
    (fresh : large.isFresh now.value e = .ok true) :
    Included (small.step (.get now e.key)) (large.step (.get now e.key)) := by
  have hlength := length_without hlarge.keys he
  have hgap := h.gap
  rw [step, step, get_of_fresh hlarge.keys he fresh]
  -- The smaller cache may have dropped the entry, and then the gap between the two pays for it.
  by_cases hkey : e.key ∈ small.keys
  · have hmem := h.mem_of_key hlarge he hkey
    have hlength' := length_without hsmall.keys hmem
    rw [get_of_fresh hsmall.keys hmem (h.isFresh_eq now.value e ▸ fresh)]
    refine ⟨(h.without e.key).append (.refl _), ?_, h.ages, Nat.succ_le_succ h.hits, h.misses⟩
    show (large.without e.key ++ [e]).length + small.maxSize ≤
      (small.without e.key ++ [e]).length + large.maxSize
    simp only [List.length_append, List.length_singleton]
    omega
  · rw [get_of_missing hkey]
    refine ⟨(h.entries_without hkey).trans (List.sublist_append_left _ _), ?_, h.ages,
      Nat.le_succ_of_le h.hits, Nat.le_succ_of_le h.misses⟩
    show (large.without e.key ++ [e]).length + small.maxSize ≤
      small.entries.length + large.maxSize
    simp only [List.length_append, List.length_singleton]
    omega

/-- A request that finds an entry that is too old drops it from both caches, or from the larger
one only. -/
theorem get_old (h : Included small large) (hsmall : small.Sound) (hlarge : large.Sound)
    {now : Instant} {e : CacheEntry α} (he : e ∈ large.entries)
    (old : large.isFresh now.value e = .ok false) :
    Included (small.step (.get now e.key)) (large.step (.get now e.key)) := by
  have hlength := length_without hlarge.keys he
  have hgap := h.gap
  rw [step, step, get_of_old hlarge.keys he old]
  by_cases hkey : e.key ∈ small.keys
  · have hmem := h.mem_of_key hlarge he hkey
    have hlength' := length_without hsmall.keys hmem
    rw [get_of_old hsmall.keys hmem (h.isFresh_eq now.value e ▸ old)]
    refine ⟨h.without e.key, ?_, h.ages, h.hits, Nat.succ_le_succ h.misses⟩
    show (large.without e.key).length + small.maxSize ≤
      (small.without e.key).length + large.maxSize
    omega
  · rw [get_of_missing hkey]
    refine ⟨h.entries_without hkey, ?_, h.ages, h.hits, Nat.succ_le_succ h.misses⟩
    show (large.without e.key).length + small.maxSize ≤ small.entries.length + large.maxSize
    omega

theorem get (h : Included small large) (hsmall : small.Sound) (hlarge : large.Sound)
    (now : Instant) (key : String) :
    Included (small.step (.get now key)) (large.step (.get now key)) := by
  rcases hlarge.key_cases now key with hmissing | ⟨e, he, rfl, hfresh | hold⟩
  · have hmissing' : key ∉ small.keys := fun hkey => hmissing (h.mem_keys hkey)
    rw [step, step, get_of_missing hmissing, get_of_missing hmissing']
    exact ⟨h.entries, h.gap, h.ages, h.hits, Nat.succ_le_succ h.misses⟩
  · exact h.get_fresh hsmall hlarge he hfresh
  · exact h.get_old hsmall hlarge he hold

/-! ### Storing -/

/-- The same entry can be put behind the others in both caches. -/
theorem store (h : Included small large) (e : CacheEntry α) :
    Included (small.store e) (large.store e) := by
  refine ⟨h.entries.append (.refl _), ?_, h.ages, h.hits, h.misses⟩
  have hgap := h.gap
  show (large.entries ++ [e]).length + small.maxSize ≤ (small.entries ++ [e]).length + large.maxSize
  simp only [List.length_append, List.length_singleton]
  omega

/-- Dropping the oldest entry drops the same one from both caches, or one that only the larger
one has. -/
theorem evict_both (h : Included small large) (hsmall : small.Sound)
    (full : small.maxSize ≤ small.entries.length) : Included small.evict large.evict := by
  refine ⟨?_, ?_, h.ages, h.hits, h.misses⟩
  · show (small.entries.drop 1).Sublist (large.entries.drop 1)
    simpa using h.entries.tail
  · have hgap := h.gap
    have hroom := hsmall.room
    have hlength := h.entries.length_le
    show (large.entries.drop 1).length + small.maxSize ≤
      (small.entries.drop 1).length + large.maxSize
    simp only [List.length_drop]
    omega

/-- The smaller cache can drop its oldest entry while the larger one still has room. -/
theorem evict_small (h : Included small large) (hsmall : small.Sound)
    (full : small.maxSize ≤ small.entries.length)
    (room : large.entries.length < large.maxSize) : Included small.evict large := by
  refine ⟨(List.drop_sublist 1 _).trans h.entries, ?_, h.ages, h.hits, h.misses⟩
  have hpos := hsmall.room
  show large.entries.length + small.maxSize ≤ (small.entries.drop 1).length + large.maxSize
  rw [List.length_drop]
  omega

/-- Both caches can drop the entry under a key. -/
theorem dropKey_both (h : Included small large) (hsmall : small.Sound) (hlarge : large.Sound)
    {key : String} (hkey : key ∈ small.keys) :
    Included (small.dropKey key) (large.dropKey key) := by
  obtain ⟨e, he, rfl⟩ := Cache.mem_keys.mp hkey
  have hlength := length_without hsmall.keys he
  have hlength' := length_without hlarge.keys (h.entries.subset he)
  have hgap := h.gap
  refine ⟨h.without e.key, ?_, h.ages, h.hits, h.misses⟩
  show (large.without e.key).length + small.maxSize ≤
    (small.without e.key).length + large.maxSize
  omega

/-- The larger cache can drop an entry that the smaller one does not have. -/
theorem dropKey_large (h : Included small large) {key : String} (missing : key ∉ small.keys) :
    Included small (large.dropKey key) := by
  refine ⟨h.entries_without missing, ?_, h.ages, h.hits, h.misses⟩
  have hgap := h.gap
  have hlength : (large.without key).length ≤ large.entries.length := List.length_filter_le _ _
  show (large.without key).length + small.maxSize ≤ small.entries.length + large.maxSize
  omega

theorem put (h : Included small large) (hsmall : small.Sound) (hlarge : large.Sound)
    (now : Instant) (key treeHash : String) (value : α) :
    Included (small.step (.put now key treeHash value))
      (large.step (.put now key treeHash value)) := by
  rw [step, step]
  by_cases hkey : key ∈ large.keys
  · rw [put_of_mem hkey]
    by_cases hkey' : key ∈ small.keys
    · rw [put_of_mem hkey']
      exact (h.dropKey_both hsmall hlarge hkey').store _
    · have hdropped := h.dropKey_large hkey'
      by_cases hfull : small.maxSize ≤ small.entries.length
      · -- The entry that the larger cache replaces leaves room there.
        have hroom : (large.dropKey key).entries.length < large.maxSize := by
          obtain ⟨e, he, rfl⟩ := Cache.mem_keys.mp hkey
          have hlength := length_without hlarge.keys he
          have hsize := hlarge.size
          show (large.without e.key).length < large.maxSize
          omega
        rw [put_of_full hkey' hfull]
        exact (hdropped.evict_small hsmall hfull hroom).store _
      · rw [put_of_room hkey' (Nat.lt_of_not_le hfull)]
        exact hdropped.store _
  · have hkey' : key ∉ small.keys := fun hmem => hkey (h.mem_keys hmem)
    by_cases hfull : large.maxSize ≤ large.entries.length
    · -- A full larger cache means a full smaller one, by the gap.
      have hfull' : small.maxSize ≤ small.entries.length := by
        have hgap := h.gap
        omega
      rw [put_of_full hkey hfull, put_of_full hkey' hfull']
      exact (h.evict_both hsmall hfull').store _
    · have hroom := Nat.lt_of_not_le hfull
      rw [put_of_room hkey hroom]
      by_cases hfull' : small.maxSize ≤ small.entries.length
      · rw [put_of_full hkey' hfull']
        exact (h.evict_small hsmall hfull' hroom).store _
      · rw [put_of_room hkey' (Nat.lt_of_not_le hfull')]
        exact h.store _

/-! ### Everything else -/

/-- Choosing the same entries from both caches leaves no larger gap. -/
theorem filter (h : Included small large) (keep : CacheEntry α → Bool) :
    Included { small with entries := small.entries.filter keep }
      { large with entries := large.entries.filter keep } := by
  refine ⟨h.entries.filter keep, ?_, h.ages, h.hits, h.misses⟩
  -- Of the entries that are left out, the larger cache has at least as many.
  have hdropped := (h.entries.filter fun e => !keep e).length_le
  have hlarge := List.length_eq_length_filter_add (l := large.entries) keep
  have hsmall := List.length_eq_length_filter_add (l := small.entries) keep
  have hgap := h.gap
  show (large.entries.filter keep).length + small.maxSize ≤
    (small.entries.filter keep).length + large.maxSize
  omega

theorem cleanupExpired (h : Included small large) (hsmall : small.Sound) (hlarge : large.Sound)
    (now : Instant) :
    Included (small.step (.cleanupExpired now)) (large.step (.cleanupExpired now)) := by
  obtain ⟨kept, hkept⟩ := hsmall.exists_freshAmong now fun e (he : e ∈ small.entries) => he
  obtain ⟨kept', hkept'⟩ := hlarge.exists_freshAmong now fun e (he : e ∈ large.entries) => he
  have hsame : (fun e => (small.isFresh now.value e).toOption.getD false) =
      fun e => (large.isFresh now.value e).toOption.getD false :=
    funext fun e => by rw [h.isFresh_eq]
  rw [step, step, Cache.cleanupExpired, Cache.cleanupExpired, hkept, hkept']
  show Included { small with entries := kept } { large with entries := kept' }
  rw [freshAmong_eq_filter hkept, freshAmong_eq_filter hkept', hsame]
  exact h.filter _

/-- Each operation on both caches keeps the smaller one included in the larger one. -/
theorem step (h : Included small large) (hsmall : small.Sound) (hlarge : large.Sound)
    (hsizes : small.maxSize ≤ large.maxSize) (op : Op α) :
    Included (small.step op) (large.step op) := by
  cases op with
  | get now key => exact h.get hsmall hlarge now key
  | put now key treeHash value => exact h.put hsmall hlarge now key treeHash value
  | cleanupExpired now => exact h.cleanupExpired hsmall hlarge now
  | clear => exact ⟨.slnil, by simpa [Cache.step, Cache.clear] using hsizes, h.ages, h.hits, h.misses⟩
  | resetStatistics => exact ⟨h.entries, h.gap, h.ages, Nat.le_refl 0, Nat.le_refl 0⟩

end Included

/-- Any operations on both caches keep the smaller one included in the larger one. -/
theorem run_included (h : Included small large) (hsmall : small.Sound) (hlarge : large.Sound)
    (hsizes : small.maxSize ≤ large.maxSize) (ops : List (Op α)) :
    Included (small.run ops) (large.run ops) := by
  induction ops using List.reverseRecOn with
  | nil => exact h
  | append_singleton ops op ih =>
    rw [run_concat, run_concat]
    refine ih.step (hsmall.run ops) (hlarge.run ops) ?_ op
    rw [(hsmall.run_limits ops).1, (hlarge.run_limits ops).1]
    exact hsizes

/-- A request that the smaller cache answers is answered by the larger one, with the same
result. -/
theorem Included.get_eq (h : Included small large) (hsmall : small.Sound) (hlarge : large.Sound)
    {now : Instant} {key : String} {value : α} {next : Cache α}
    (hget : small.get now.value key = .ok (some value, next)) :
    ∃ next', large.get now.value key = .ok (some value, next') := by
  rcases hsmall.key_cases now key with hmissing | ⟨e, he, rfl, hfresh | hold⟩
  · rw [get_of_missing hmissing] at hget
    cases hget
  · rw [get_of_fresh hsmall.keys he hfresh] at hget
    cases hget
    exact ⟨_, get_of_fresh hlarge.keys (h.entries.subset he) (h.isFresh_eq now.value e ▸ hfresh)⟩
  · rw [get_of_old hsmall.keys he hold] at hget
    cases hget

/-- Two new caches with the same greatest age, if any, are used in the same way. Then after
every operation the larger one has all entries of the smaller one, in the same order, and the
numbers of entries differ by no more than the sizes do. So what the smaller one answers is
answered by the larger one with the same result. It never has fewer hits or more misses. -/
theorem inclusion {size more : Nat} {limit : Option Number}
    (hsmall : create (.int size) (limit.map .seconds) = .ok small)
    (hlarge : create (.int more) (limit.map .seconds) = .ok large) (hsizes : size ≤ more)
    (ops : List (Op α)) :
    (small.run ops).entries.Sublist (large.run ops).entries ∧
    (large.run ops).entries.length ≤ (small.run ops).entries.length + (more - size) ∧
    (∀ now key value next,
      (small.run ops).get (Instant.value now) key = .ok (some value, next) →
        ∃ next', (large.run ops).get now.value key = .ok (some value, next')) ∧
    (small.run ops).statistics.hits ≤ (large.run ops).statistics.hits ∧
    (large.run ops).statistics.misses ≤ (small.run ops).statistics.misses := by
  have hsound := sound_create hsmall
  have hsound' := sound_create hlarge
  obtain ⟨-, rfl⟩ := create_cases hsmall
  obtain ⟨-, rfl⟩ := create_cases hlarge
  have hstart : Included (α := α) { maxSize := size, maxAge := limit.map .seconds }
      { maxSize := more, maxAge := limit.map .seconds } :=
    ⟨.slnil, by simpa using hsizes, rfl, Nat.le_refl 0, Nat.le_refl 0⟩
  have hrun := run_included hstart hsound hsound' hsizes ops
  have hgap := hrun.gap
  rw [(hsound.run_limits ops).1, (hsound'.run_limits ops).1] at hgap
  refine ⟨hrun.entries, ?_, fun now key value next hget => ?_, hrun.hits, hrun.misses⟩
  · dsimp only at hgap ⊢
    omega
  · exact hrun.get_eq (hsound.run ops) (hsound'.run ops) hget

/-! ### Room for one and room for two -/

namespace Sample

/-- Two results are stored and the first one is asked for twice, the second time when it is too
old. -/
def ageing : List (Op Nat) :=
  [.put (.second 0) "a" "" 1, .put (.second 5) "b" "" 2, .get (.second 9) "a", .get (.second 10) "a"]

end Sample

/-- Only the larger cache answers the request, and it still has the second entry when the first
one is dropped. -/
theorem inclusion_one_two :
    let small : Cache Nat := { maxSize := 1, maxAge := some (.seconds 10) }
    let large : Cache Nat := { maxSize := 2, maxAge := some (.seconds 10) }
    (small.run (Sample.ageing.take 3)).keys = ["b"] ∧
      (large.run (Sample.ageing.take 3)).keys = ["b", "a"] ∧
      (small.run Sample.ageing).statistics.hits = 0 ∧ (large.run Sample.ageing).statistics.hits = 1 ∧
      (small.run Sample.ageing).entries.Sublist (large.run Sample.ageing).entries ∧
      (large.run Sample.ageing).statistics.misses ≤ (small.run Sample.ageing).statistics.misses := by
  intro small large
  have hsmall : create (.int (1 : Nat)) ((some 10 : Option Number).map .seconds) = .ok small := rfl
  have hlarge : create (.int (2 : Nat)) ((some 10 : Option Number).map .seconds) = .ok large := rfl
  obtain ⟨hentries, -, -, -, hmisses⟩ := inclusion hsmall hlarge (by decide) Sample.ageing
  exact ⟨by decide, by decide, by decide, by decide, hentries, hmisses⟩

end Cache

end CodeMetrics
