import CodeMetrics.Cache
import Mathlib.Data.List.Induction
import Mathlib.Data.List.Nodup

/-!
# `CodeMetrics.Proofs.Cache.Operation`: a cache under any sequence of operations

The operations of a cache as values of a type, so that whole sequences of them can be run. Each
one that depends on the time comes with a reading of the clock (`Instant`). Readings may go
forwards or backwards, and they are numbers of any sort that doubles reach.

`Effect` lists everything that an operation can do, and `Sound.effect_step` says that it does one of
these things. What every cache is like (`Sound`) follows from that list: no key is there twice, the
entries fit, and every age can be formed. So no operation fails (`Sound.run`).

An entry stays as it was stored. `LatestPut` says which operation stored it: the last one that
stored something under its key, with no clearing after it (`latestPut_run`).
-/

set_option autoImplicit false

namespace CodeMetrics

/-! ### Readings of the clock -/

/-- A reading of the clock: a double, or a whole number in the range of doubles. -/
structure Instant where
  value : Number
  inRange : ∀ n, value = .int n → Number.isBeyond n = false

namespace Instant

/-- A whole number as a reading of the clock. -/
def ofInt (n : Int) (h : Number.isBeyond n = false) : Instant :=
  ⟨.int n, fun m hm => by cases hm; exact h⟩

theorem isBeyond_second : ∀ n : Fin 60, Number.isBeyond (n : Nat) = false := by
  decide +kernel

/-- A number of seconds within a minute as a reading of the clock. -/
def second (n : Nat) : Instant :=
  ofInt ((n % 60 : Nat) : Int) (isBeyond_second ⟨n % 60, Nat.mod_lt n (by decide)⟩)

/-- From one reading of the clock to another there is always an age. -/
theorem exists_age (a b : Instant) : ∃ age, a.value.minus b.value = .ok age := by
  obtain ⟨a, ha⟩ := a
  obtain ⟨b, hb⟩ := b
  -- Only a whole number beyond all doubles clashes with one, and an instant is none.
  have hclash : a.clashes b = false := by
    cases a with
    | int m =>
      cases b with
      | int n => rfl
      | float y => exact ha m rfl
    | float x =>
      cases b with
      | int n => exact hb n rfl
      | float y => rfl
  unfold Number.minus
  simp only [hclash, Bool.false_eq_true, if_false]
  split
  · exact ⟨_, rfl⟩
  · exact ⟨_, rfl⟩

end Instant

namespace Cache

variable {α : Type}

/-! ### Operations -/

/-- An operation on a cache, with the reading of the clock where the time matters. -/
inductive Op (α : Type) where
  | get (now : Instant) (key : String)
  | put (now : Instant) (key treeHash : String) (value : α)
  | cleanupExpired (now : Instant)
  | clear
  | resetStatistics

/-- The cache after an operation. One that fails changes nothing. -/
def step (c : Cache α) : Op α → Cache α
  | .get now key =>
    match c.get now.value key with
    | .ok (_, next) => next
    | .error _ => c
  | .put now key treeHash value => c.put now.value key treeHash value
  | .cleanupExpired now =>
    match c.cleanupExpired now.value with
    | .ok (_, next) => next
    | .error _ => c
  | .clear => c.clear
  | .resetStatistics => c.resetStatistics

/-- The cache after several operations. -/
def run (c : Cache α) (ops : List (Op α)) : Cache α :=
  ops.foldl step c

@[simp] theorem run_nil (c : Cache α) : c.run [] = c := rfl

theorem run_concat (c : Cache α) (ops : List (Op α)) (op : Op α) :
    c.run (ops ++ [op]) = (c.run ops).step op := by
  rw [run, List.foldl_concat, run]

/-- Each operation with the cache that it was carried out on. -/
def trace (c : Cache α) : List (Op α) → List (Cache α × Op α)
  | [] => []
  | op :: rest => (c, op) :: (c.step op).trace rest

theorem trace_concat (c : Cache α) (ops : List (Op α)) (op : Op α) :
    c.trace (ops ++ [op]) = c.trace ops ++ [(c.run ops, op)] := by
  induction ops generalizing c with
  | nil => rfl
  | cons first rest ih => rw [List.cons_append, trace, ih, trace]; rfl

/-! ### Keys -/

/-- The keys of the entries, those that were not used for longest first. -/
def keys (c : Cache α) : List String :=
  c.entries.map CacheEntry.key

theorem mem_keys {c : Cache α} {key : String} : key ∈ c.keys ↔ ∃ e ∈ c.entries, e.key = key :=
  List.mem_map

/-- What is found under a key is an entry with this key. -/
theorem mem_of_find? {c : Cache α} {key : String} {e : CacheEntry α} (h : c.find? key = some e) :
    e ∈ c.entries ∧ e.key = key :=
  ⟨List.mem_of_find?_eq_some h, by simpa using List.find?_some h⟩

/-- Nothing is found under a key that no entry has. -/
theorem find?_eq_none_iff {c : Cache α} {key : String} : c.find? key = none ↔ key ∉ c.keys := by
  simp [find?, mem_keys, List.find?_eq_none]

/-- If keys are unique, an entry is what is found under its key. -/
theorem find?_of_mem {c : Cache α} (hkeys : c.keys.Nodup) {e : CacheEntry α}
    (he : e ∈ c.entries) : c.find? e.key = some e := by
  cases hfind : c.find? e.key with
  | none => exact absurd (mem_keys.mpr ⟨e, he, rfl⟩) (find?_eq_none_iff.mp hfind)
  | some found =>
    obtain ⟨hmem, hkey⟩ := mem_of_find? hfind
    rw [List.inj_on_of_nodup_map hkeys hmem he hkey]

/-- The other entries have the other keys. -/
theorem map_key_without (c : Cache α) (key : String) :
    (c.without key).map CacheEntry.key = c.keys.filter (· != key) := by
  rw [without, keys, List.filter_map]
  rfl

/-- Without a key that no entry has, all entries are left. -/
theorem without_of_not_mem {c : Cache α} {key : String} (h : key ∉ c.keys) :
    c.without key = c.entries :=
  List.filter_eq_self.mpr fun e he => by
    simpa using fun hkey => h (mem_keys.mpr ⟨e, he, hkey⟩)

/-- Without the key of an entry, one entry less is left. -/
theorem length_without {c : Cache α} (hkeys : c.keys.Nodup) {e : CacheEntry α}
    (he : e ∈ c.entries) : (c.without e.key).length + 1 = c.entries.length := by
  have hmem : e.key ∈ c.keys := mem_keys.mpr ⟨e, he, rfl⟩
  have hlength : (c.without e.key).length = (c.keys.erase e.key).length := by
    rw [hkeys.erase_eq_filter, ← map_key_without, List.length_map]
  have hpos := List.length_pos_of_mem hmem
  rw [hlength, List.length_erase_of_mem hmem, Nat.sub_add_cancel hpos, keys, List.length_map]

/-! ### What an operation does -/

/-- The entry for a result that is stored. -/
def entryOf (now : Number) (key treeHash : String) (value : α) : CacheEntry α :=
  { key, value, treeHash, time := now }

/-- The cache with an entry behind all others, counted as stored. -/
def store (c : Cache α) (e : CacheEntry α) : Cache α :=
  { c with
    entries := c.entries ++ [e]
    statistics := { c.statistics with puts := c.statistics.puts + 1 } }

/-- The cache without the entry under a key. -/
def dropKey (c : Cache α) (key : String) : Cache α :=
  { c with entries := c.without key }

/-- Everything that an operation can do. -/
inductive Effect (c : Cache α) : Op α → Cache α → Prop
  /-- An entry is found and becomes the youngest. -/
  | hit {now : Instant} {e : CacheEntry α} (mem : e ∈ c.entries)
      (fresh : c.isFresh now.value e = .ok true) :
      Effect c (.get now e.key) { c with entries := c.without e.key ++ [e] }.hit
  /-- An entry is found that is too old. It is dropped. -/
  | expired {now : Instant} {e : CacheEntry α} (mem : e ∈ c.entries)
      (old : c.isFresh now.value e = .ok false) :
      Effect c (.get now e.key) (c.dropKey e.key).miss
  /-- No entry is found. -/
  | absent {now : Instant} {key : String} (missing : key ∉ c.keys) :
      Effect c (.get now key) c.miss
  /-- A result is stored in the place of another one. -/
  | overwritten {now : Instant} {treeHash : String} {value : α} {e : CacheEntry α}
      (mem : e ∈ c.entries) :
      Effect c (.put now e.key treeHash value)
        ((c.dropKey e.key).store (entryOf now.value e.key treeHash value))
  /-- A result is stored, and the oldest entry makes room for it. -/
  | evicted {now : Instant} {key treeHash : String} {value : α} (missing : key ∉ c.keys)
      (full : c.maxSize ≤ c.entries.length) :
      Effect c (.put now key treeHash value) (c.evict.store (entryOf now.value key treeHash value))
  /-- A result is stored where there is room. -/
  | added {now : Instant} {key treeHash : String} {value : α} (missing : key ∉ c.keys)
      (room : c.entries.length < c.maxSize) :
      Effect c (.put now key treeHash value) (c.store (entryOf now.value key treeHash value))
  /-- The entries that are too old are dropped. -/
  | cleaned {now : Instant} {kept : List (CacheEntry α)}
      (fresh : c.freshAmong now.value c.entries = .ok kept) :
      Effect c (.cleanupExpired now) { c with entries := kept }
  | cleared : Effect c .clear c.clear
  | reset : Effect c .resetStatistics c.resetStatistics

/-! ### Sound caches -/

/-- What every cache is like: no key is there twice, there is room for an entry and the entries
fit, entries were stored at readings of the clock, and a greatest age is a number. -/
structure Sound (c : Cache α) : Prop where
  keys : c.keys.Nodup
  room : 0 < c.maxSize
  size : c.entries.length ≤ c.maxSize
  times : ∀ e ∈ c.entries, ∃ t : Instant, e.time = t.value
  limit : ∀ l, c.maxAge = some l → ∃ n, l = .seconds n

variable {c : Cache α}

/-- It can always be said whether an entry is too old. -/
theorem Sound.exists_isFresh (h : c.Sound) (now : Instant) {e : CacheEntry α}
    (he : e ∈ c.entries) : ∃ fresh, c.isFresh now.value e = .ok fresh := by
  unfold isFresh
  cases hage : c.maxAge with
  | none => exact ⟨true, rfl⟩
  | some l =>
    obtain ⟨n, rfl⟩ := h.limit l hage
    obtain ⟨t, ht⟩ := h.times e he
    obtain ⟨age, hage⟩ := now.exists_age t
    rw [ht, hage]
    exact ⟨age.below n, rfl⟩

/-- A request for an entry that is not too old is answered. -/
theorem get_of_fresh (hkeys : c.keys.Nodup) {now : Number} {e : CacheEntry α}
    (he : e ∈ c.entries) (fresh : c.isFresh now e = .ok true) :
    c.get now e.key = .ok (some e.value, { c with entries := c.without e.key ++ [e] }.hit) := by
  rw [get, find?_of_mem hkeys he]
  dsimp only
  rw [fresh]
  rfl

/-- A request for an entry that is too old drops the entry. -/
theorem get_of_old (hkeys : c.keys.Nodup) {now : Number} {e : CacheEntry α}
    (he : e ∈ c.entries) (old : c.isFresh now e = .ok false) :
    c.get now e.key = .ok (none, (c.dropKey e.key).miss) := by
  rw [get, find?_of_mem hkeys he]
  dsimp only
  rw [old]
  rfl

/-- A request for a key that no entry has is not answered. -/
theorem get_of_missing {key : String} (missing : key ∉ c.keys) (now : Number) :
    c.get now key = .ok (none, c.miss) := by
  rw [get, find?_eq_none_iff.mpr missing]

/-- A result under a key that is there replaces the other one. -/
theorem put_of_mem {key : String} (hkey : key ∈ c.keys) (now : Number) (treeHash : String)
    (value : α) :
    c.put now key treeHash value = (c.dropKey key).store (entryOf now key treeHash value) := by
  obtain ⟨e, he⟩ := Option.ne_none_iff_exists'.mp fun hnone => find?_eq_none_iff.mp hnone hkey
  rw [put, he]
  rfl

/-- A result under a new key needs the place of the oldest entry, if there is no room. -/
theorem put_of_full {key : String} (missing : key ∉ c.keys) (full : c.maxSize ≤ c.entries.length)
    (now : Number) (treeHash : String) (value : α) :
    c.put now key treeHash value = c.evict.store (entryOf now key treeHash value) := by
  unfold put
  rw [find?_eq_none_iff.mpr missing, Option.isSome_none, if_neg Bool.false_ne_true, if_pos full]
  rfl

/-- A result under a new key is stored behind the others, if there is room. -/
theorem put_of_room {key : String} (missing : key ∉ c.keys) (room : c.entries.length < c.maxSize)
    (now : Number) (treeHash : String) (value : α) :
    c.put now key treeHash value = c.store (entryOf now key treeHash value) := by
  unfold put
  rw [find?_eq_none_iff.mpr missing, Option.isSome_none, if_neg Bool.false_ne_true,
    if_neg (Nat.not_le_of_lt room)]
  rfl

/-- There is no entry under a key, or it can be said whether the one that is there is too old. -/
theorem Sound.key_cases (h : c.Sound) (now : Instant) (key : String) :
    key ∉ c.keys ∨ ∃ e ∈ c.entries, e.key = key ∧
      (c.isFresh now.value e = .ok true ∨ c.isFresh now.value e = .ok false) := by
  by_cases hkey : key ∈ c.keys
  · obtain ⟨e, he, rfl⟩ := mem_keys.mp hkey
    obtain ⟨fresh, hfresh⟩ := h.exists_isFresh now he
    refine .inr ⟨e, he, rfl, ?_⟩
    cases fresh with
    | true => exact .inl hfresh
    | false => exact .inr hfresh
  · exact .inl hkey

/-- The entries that are not too old can always be found out. -/
theorem Sound.exists_freshAmong (h : c.Sound) (now : Instant) {es : List (CacheEntry α)}
    (hes : ∀ e ∈ es, e ∈ c.entries) : ∃ kept, c.freshAmong now.value es = .ok kept := by
  induction es with
  | nil => exact ⟨[], rfl⟩
  | cons e rest ih =>
    rw [List.forall_mem_cons] at hes
    obtain ⟨fresh, hfresh⟩ := h.exists_isFresh now hes.1
    obtain ⟨kept, hkept⟩ := ih hes.2
    rw [freshAmong, hfresh, hkept]
    exact ⟨_, rfl⟩

/-- An operation on a sound cache has one of the effects. -/
theorem Sound.effect_step (h : c.Sound) (op : Op α) : Effect c op (c.step op) := by
  cases op with
  | get now key =>
    rw [step]
    rcases h.key_cases now key with hmissing | ⟨e, hmem, rfl, hfresh | hold⟩
    · rw [get_of_missing hmissing]
      exact .absent hmissing
    · rw [get_of_fresh h.keys hmem hfresh]
      exact .hit hmem hfresh
    · rw [get_of_old h.keys hmem hold]
      exact .expired hmem hold
  | put now key treeHash value =>
    rw [step]
    by_cases hkey : key ∈ c.keys
    · obtain ⟨e, hmem, rfl⟩ := mem_keys.mp hkey
      rw [put_of_mem hkey]
      exact .overwritten hmem
    · by_cases hfull : c.maxSize ≤ c.entries.length
      · rw [put_of_full hkey hfull]
        exact .evicted hkey hfull
      · have hroom := Nat.lt_of_not_le hfull
        rw [put_of_room hkey hroom]
        exact .added hkey hroom
  | cleanupExpired now =>
    obtain ⟨kept, hkept⟩ := h.exists_freshAmong now fun e (he : e ∈ c.entries) => he
    rw [step, cleanupExpired, hkept]
    exact .cleaned hkept
  | clear => exact .cleared
  | resetStatistics => exact .reset

/-- The entries that are not too old stand in the order they had. -/
theorem freshAmong_eq_filter {now : Number} {es kept : List (CacheEntry α)}
    (h : c.freshAmong now es = .ok kept) :
    kept = es.filter fun e => (c.isFresh now e).toOption.getD false := by
  induction es generalizing kept with
  | nil =>
    cases h
    rfl
  | cons e rest ih =>
    rw [freshAmong] at h
    rw [List.filter_cons]
    cases hfresh : c.isFresh now e with
    | error f =>
      rw [hfresh] at h
      cases h
    | ok fresh =>
      cases hrest : c.freshAmong now rest with
      | error f =>
        rw [hfresh, hrest] at h
        cases h
      | ok others =>
        rw [hfresh, hrest] at h
        rw [← ih hrest]
        cases fresh <;> cases h <;> rfl

/-! ### What operations keep -/

/-- The size and the greatest age of a cache never change. -/
theorem Effect.limits {op : Op α} {next : Cache α} (h : Effect c op next) :
    next.maxSize = c.maxSize ∧ next.maxAge = c.maxAge := by
  cases h <;> exact ⟨rfl, rfl⟩

/-- Whether an operation takes the entry under a key away, or stores another one there. -/
def Op.renews (key : String) : Op α → Bool
  | .put _ other _ _ => other == key
  | .clear => true
  | _ => false

/-- The entry is the one that an operation stores. -/
def Op.Stores (op : Op α) (e : CacheEntry α) : Prop :=
  ∃ now key treeHash value, op = .put now key treeHash value ∧ e = entryOf now.value key treeHash value

theorem stores_put (now : Instant) (key treeHash : String) (value : α) :
    Op.Stores (.put now key treeHash value) (entryOf now.value key treeHash value) :=
  ⟨now, key, treeHash, value, rfl, rfl⟩

/-- Storing under a key that no entry has renews no entry. -/
theorem renews_put_of_missing {now : Instant} {key treeHash : String} {value : α}
    (missing : key ∉ c.keys) {e : CacheEntry α} (he : e ∈ c.entries) :
    (Op.put now key treeHash value).renews e.key = false := by
  refine beq_eq_false_iff_ne.mpr ?_
  rintro rfl
  exact missing (mem_keys.mpr ⟨e, he, rfl⟩)

/-- After an operation, every entry was there before and was not renewed, or it is the one that
was stored. -/
theorem Effect.mem_entries {op : Op α} {next : Cache α} (h : Effect c op next)
    {e : CacheEntry α} (he : e ∈ next.entries) :
    e ∈ c.entries ∧ op.renews e.key = false ∨ op.Stores e := by
  cases h with
  | hit mem fresh =>
    rcases List.mem_append.mp he with hold | hmoved
    · exact .inl ⟨List.mem_of_mem_filter hold, rfl⟩
    · exact .inl ⟨List.mem_singleton.mp hmoved ▸ mem, rfl⟩
  | expired mem old => exact .inl ⟨List.mem_of_mem_filter he, rfl⟩
  | absent missing => exact .inl ⟨he, rfl⟩
  | overwritten mem =>
    rcases List.mem_append.mp he with hold | hnew
    -- The entries that stay have other keys, so they are not the renewed one.
    · obtain ⟨hmem, hkey⟩ := List.mem_filter.mp hold
      exact .inl ⟨hmem, beq_eq_false_iff_ne.mpr (Ne.symm (bne_iff_ne.mp hkey))⟩
    · exact .inr (List.mem_singleton.mp hnew ▸ stores_put ..)
  | evicted missing full =>
    rcases List.mem_append.mp he with hold | hnew
    · have hmem := List.mem_of_mem_drop hold
      exact .inl ⟨hmem, renews_put_of_missing missing hmem⟩
    · exact .inr (List.mem_singleton.mp hnew ▸ stores_put ..)
  | added missing room =>
    rcases List.mem_append.mp he with hold | hnew
    · exact .inl ⟨hold, renews_put_of_missing missing hold⟩
    · exact .inr (List.mem_singleton.mp hnew ▸ stores_put ..)
  | cleaned fresh =>
    rw [freshAmong_eq_filter fresh] at he
    exact .inl ⟨List.mem_of_mem_filter he, rfl⟩
  | cleared => cases he
  | reset => exact .inl ⟨he, rfl⟩

/-- Moving a key behind all others keeps keys unique. -/
theorem nodup_filter_concat {keys : List String} (h : keys.Nodup) (key : String) :
    (keys.filter (· != key) ++ [key]).Nodup := by
  rw [← List.concat_eq_append]
  exact (h.filter _).concat (by simp)

/-- What an operation does to the keys keeps them unique. -/
theorem Effect.nodup_keys {op : Op α} {next : Cache α} (h : Effect c op next)
    (hkeys : c.keys.Nodup) : next.keys.Nodup := by
  cases h with
  | hit mem fresh =>
    show (List.map _ (c.without _ ++ _)).Nodup
    rw [List.map_append, map_key_without]
    exact nodup_filter_concat hkeys _
  | expired mem old =>
    show (List.map _ (c.without _)).Nodup
    rw [map_key_without]
    exact hkeys.filter _
  | absent missing => exact hkeys
  | overwritten mem =>
    show (List.map _ (c.without _ ++ _)).Nodup
    rw [List.map_append, map_key_without]
    exact nodup_filter_concat hkeys _
  | evicted missing full =>
    show (List.map _ (c.entries.drop 1 ++ _)).Nodup
    rw [List.map_append, List.map_drop, List.map_singleton, ← List.concat_eq_append]
    -- The new key was missing before the eviction, so it is missing after it.
    exact (hkeys.sublist (List.drop_sublist 1 _)).concat fun hmem =>
      missing (List.mem_of_mem_drop hmem)
  | added missing room =>
    show (List.map _ (c.entries ++ _)).Nodup
    rw [List.map_append, List.map_singleton, ← List.concat_eq_append]
    exact List.Nodup.concat missing hkeys
  | cleaned fresh =>
    rw [freshAmong_eq_filter fresh]
    exact hkeys.sublist (List.filter_sublist.map _)
  | cleared => exact List.nodup_nil
  | reset => exact hkeys

/-- The number of entries after an operation. -/
theorem Effect.size_le {op : Op α} {next : Cache α} (h : Effect c op next) (hsound : c.Sound) :
    next.entries.length ≤ c.maxSize := by
  have hsize := hsound.size
  cases h with
  | hit mem fresh =>
    have hlength := length_without hsound.keys mem
    show (c.without _ ++ _).length ≤ _
    rw [List.length_append, List.length_singleton]
    omega
  | expired mem old => exact Nat.le_trans (List.length_filter_le _ _) hsize
  | absent missing => exact hsize
  | overwritten mem =>
    have hlength := length_without hsound.keys mem
    show (c.without _ ++ _).length ≤ _
    rw [List.length_append, List.length_singleton]
    omega
  | evicted missing full =>
    -- The oldest entry leaves, and there is one, since a full cache is not empty.
    have hroom := hsound.room
    show (c.entries.drop 1 ++ _).length ≤ _
    rw [List.length_append, List.length_drop, List.length_singleton]
    omega
  | added missing room =>
    show (c.entries ++ _).length ≤ _
    rw [List.length_append, List.length_singleton]
    exact room
  | cleaned fresh =>
    rw [freshAmong_eq_filter fresh]
    exact Nat.le_trans (List.length_filter_le _ _) hsize
  | cleared => exact Nat.zero_le _
  | reset => exact hsize

/-- Operations keep a cache sound. -/
theorem Effect.sound {op : Op α} {next : Cache α} (h : Effect c op next) (hsound : c.Sound) :
    next.Sound := by
  obtain ⟨hsize, hage⟩ := h.limits
  refine ⟨h.nodup_keys hsound.keys, hsize ▸ hsound.room, hsize ▸ h.size_le hsound, ?_,
    hage ▸ hsound.limit⟩
  intro e he
  rcases h.mem_entries he with ⟨hold, -⟩ | ⟨now, key, treeHash, value, -, rfl⟩
  · exact hsound.times e hold
  · exact ⟨now, rfl⟩

/-- A cache stays sound, whatever is done with it. -/
theorem Sound.run (h : c.Sound) (ops : List (Op α)) : (c.run ops).Sound := by
  induction ops using List.reverseRecOn with
  | nil => exact h
  | append_singleton ops op ih =>
    rw [run_concat]
    exact (ih.effect_step op).sound ih

/-- The size and the greatest age stay what they were, whatever is done. -/
theorem Sound.run_limits (h : c.Sound) (ops : List (Op α)) :
    (c.run ops).maxSize = c.maxSize ∧ (c.run ops).maxAge = c.maxAge := by
  induction ops using List.reverseRecOn with
  | nil => exact ⟨rfl, rfl⟩
  | append_singleton ops op ih =>
    rw [run_concat]
    obtain ⟨hsize, hage⟩ := ((h.run ops).effect_step op).limits
    exact ⟨hsize.trans ih.1, hage.trans ih.2⟩

/-! ### New caches -/

/-- A new cache has room, and it is empty. -/
theorem create_cases {size : Nat} {limit : Option AgeLimit}
    (h : create (.int size) limit = .ok c) : 0 < size ∧ c = { maxSize := size, maxAge := limit } := by
  unfold create at h
  split at h
  · cases h
  · rename_i hbelow
    cases h
    have hsize : ¬(size : Int) < 1 := by simpa [Number.below] using hbelow
    exact ⟨by omega, by simp [Number.ceiling]⟩

/-- A new cache is sound if its greatest age is a number, or if it has none. -/
theorem sound_create {size : Nat} {limit : Option Number}
    (h : create (.int size) (limit.map .seconds) = .ok c) : c.Sound := by
  obtain ⟨hsize, rfl⟩ := create_cases h
  refine ⟨List.nodup_nil, hsize, Nat.zero_le _, ?_, ?_⟩
  · intro e he
    cases he
  · intro l hl
    obtain ⟨n, -, rfl⟩ := Option.map_eq_some_iff.mp hl
    exact ⟨n, rfl⟩

/-! ### Where entries come from -/

/-- An entry is what the last operation stored that stored something under its key, and the
cache was not cleared after that. -/
def LatestPut (ops : List (Op α)) (e : CacheEntry α) : Prop :=
  ∃ (before after : List (Op α)) (now : Instant),
    ops = before ++ .put now e.key e.treeHash e.value :: after ∧ e.time = now.value ∧
      ∀ op ∈ after, op.renews e.key = false

/-- An operation that does not renew the key may follow. -/
theorem LatestPut.concat {ops : List (Op α)} {e : CacheEntry α} (h : LatestPut ops e) {op : Op α}
    (hop : op.renews e.key = false) : LatestPut (ops ++ [op]) e := by
  obtain ⟨before, after, now, rfl, htime, hafter⟩ := h
  refine ⟨before, after ++ [op], now, by simp, htime, ?_⟩
  rw [List.forall_mem_append]
  exact ⟨hafter, List.forall_mem_singleton.mpr hop⟩

/-- What was just stored was stored last. -/
theorem latestPut_put (ops : List (Op α)) (now : Instant) (key treeHash : String) (value : α) :
    LatestPut (ops ++ [.put now key treeHash value]) (entryOf now.value key treeHash value) :=
  ⟨ops, [], now, rfl, rfl, fun _ hop => nomatch hop⟩

/-- Each entry of a cache that was empty at first is what was stored last under its key. -/
theorem latestPut_run (h : c.Sound) (hempty : c.entries = []) (ops : List (Op α)) :
    ∀ e ∈ (c.run ops).entries, LatestPut ops e := by
  induction ops using List.reverseRecOn with
  | nil =>
    intro e he
    rw [run_nil, hempty] at he
    cases he
  | append_singleton ops op ih =>
    intro e he
    rw [run_concat] at he
    rcases ((h.run ops).effect_step op).mem_entries he with
      ⟨hold, hkept⟩ | ⟨now, key, treeHash, value, rfl, rfl⟩
    · exact (ih e hold).concat hkept
    · exact latestPut_put ops now key treeHash value

end Cache

end CodeMetrics
