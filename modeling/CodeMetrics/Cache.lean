import CodeMetrics.Digest
import CodeMetrics.Document.Number
import CodeMetrics.Settings

/-!
# `CodeMetrics.Cache`: the results that were used last

A cache keeps a bounded number of results under keys. Its entries stand in the order of
their last use, the oldest first. A result that is stored goes to the end, and one that is
found moves there. When a new key comes to a full cache, the oldest entry is dropped. If
entries have a greatest age, one that has reached it counts as missing.

Time is not measured here. The caller says what time it is. An age that cannot be formed
or compared is a fault, and the cache stays as it is.

The key of a result is a digest of the tree, up to the order of fields, and the settings.
-/

set_option autoImplicit false

namespace CodeMetrics

/-- A result with its key, the digest of its tree and the time it was stored. -/
structure CacheEntry (α : Type) where
  key : String
  value : α
  treeHash : String
  time : Number

/-- How often a cache was asked and filled. -/
structure CacheStatistics where
  hits : Nat := 0
  misses : Nat := 0
  evictions : Nat := 0
  puts : Nat := 0
  deriving DecidableEq

namespace CacheStatistics

/-- The number of times the cache was asked. -/
def requests (s : CacheStatistics) : Nat :=
  s.hits + s.misses

/-- The share of requests that were answered. -/
def hitRate (s : CacheStatistics) : Float :=
  if s.requests = 0 then 0.0 else Number.quotient s.hits s.requests

end CacheStatistics

/-- A greatest age. -/
inductive AgeLimit where
  | seconds (n : Number)
  /-- A value that no age can be compared with. -/
  | incomparable

namespace AgeLimit

/-- The greatest age that a value gives. Null gives none. -/
def ofDocument? (d : Document) : Option AgeLimit :=
  if d.isNull then none else some ((d.number?.map seconds).getD incomparable)

/-- Whether an age is below the limit. -/
def admits (age : Number) : AgeLimit → Except Fault Bool
  | .seconds n => .ok (age.below n)
  | .incomparable => .error .unusableArgument

end AgeLimit

/-- At most `maxSize` results in the order of their last use, the oldest first. -/
structure Cache (α : Type) where
  maxSize : Nat
  maxAge : Option AgeLimit := none
  entries : List (CacheEntry α) := []
  statistics : CacheStatistics := {}

namespace Cache

variable {α : Type}

/-- An empty cache. It has to have room for an entry. A fraction of an entry takes the room
of one. -/
def create (maxSize : Number) (maxAge : Option AgeLimit) : Except Error (Cache α) :=
  if maxSize.below 1 then .error (.invalidValue "max_size must be at least 1")
  else .ok { maxSize := maxSize.ceiling.toNat, maxAge }

/-- Whether an entry is younger than the greatest age. -/
def isFresh (c : Cache α) (now : Number) (e : CacheEntry α) : Except Fault Bool :=
  match c.maxAge with
  | none => .ok true
  | some limit => do limit.admits (← (now.minus e.time).mapError .arithmetic)

/-- The entry under a key. -/
def find? (c : Cache α) (key : String) : Option (CacheEntry α) :=
  c.entries.find? fun e => e.key == key

/-- The entries under all other keys. -/
def without (c : Cache α) (key : String) : List (CacheEntry α) :=
  c.entries.filter fun e => e.key != key

/-- Counts a request that was answered. -/
def hit (c : Cache α) : Cache α :=
  { c with statistics := { c.statistics with hits := c.statistics.hits + 1 } }

/-- Counts a request that was not answered. -/
def miss (c : Cache α) : Cache α :=
  { c with statistics := { c.statistics with misses := c.statistics.misses + 1 } }

/-- The result under a key. An entry that is found becomes the youngest, one that is too
old is dropped. -/
def get (c : Cache α) (now : Number) (key : String) :
    Except Fault (Option α × Cache α) :=
  match c.find? key with
  | none => .ok (none, c.miss)
  | some e => do
    if ← c.isFresh now e then
      return (some e.value, { c with entries := c.without key ++ [e] }.hit)
    else return (none, { c with entries := c.without key }.miss)

/-- Drops the oldest entry. -/
def evict (c : Cache α) : Cache α :=
  { c with
    entries := c.entries.drop 1
    statistics := { c.statistics with evictions := c.statistics.evictions + 1 } }

/-- Stores a result. It replaces one under the same key, and otherwise the oldest entry of
a full cache. -/
def put (c : Cache α) (now : Number) (key treeHash : String) (value : α) : Cache α :=
  let c :=
    if (c.find? key).isSome then { c with entries := c.without key }
    else if c.maxSize ≤ c.entries.length then c.evict
    else c
  { c with
    entries := c.entries ++ [{ key, value, treeHash, time := now }]
    statistics := { c.statistics with puts := c.statistics.puts + 1 } }

/-- Drops all entries. -/
def clear (c : Cache α) : Cache α :=
  { c with entries := [] }

/-- Starts counting anew. -/
def resetStatistics (c : Cache α) : Cache α :=
  { c with statistics := {} }

/-- The entries among `es` that are not too old. -/
def freshAmong (c : Cache α) (now : Number) :
    List (CacheEntry α) → Except Fault (List (CacheEntry α))
  | [] => .ok []
  | e :: rest => do
    let keep ← c.isFresh now e
    let kept ← c.freshAmong now rest
    return if keep then e :: kept else kept

/-- Drops the entries that are too old, and says how many those were. -/
def cleanupExpired (c : Cache α) (now : Number) : Except Fault (Nat × Cache α) := do
  let kept ← c.freshAmong now c.entries
  return (c.entries.length - kept.length, { c with entries := kept })

end Cache

/-! ### Keys -/

/-- The digest of a tree. Trees that differ only in the order of fields share it. -/
def Document.hash (d : Document) : String :=
  Digest.ofText d.canonical

/-- The key of the result for a tree under some settings. -/
def Settings.keyFor (s : Settings) (tree : Document) : String :=
  Digest.ofText (tree.hash ++ ":" ++ s.cacheKey)

end CodeMetrics
