import CodeMetrics.Cache
import CodeMetrics.Dialect.Registry
import CodeMetrics.Report
import CodeMetrics.Settings.Options
import CodeMetrics.Traversal

/-!
# `CodeMetrics.Analyzer`: from a tree to a report

`Dialect.analyze` checks the root of a tree, traverses the tree and puts the report
together. An `Analyzer` does the same for many trees under one choice of settings. It may
keep a cache of reports, which it asks after the root was checked and fills with every
report it makes. An analysis that fails leaves nothing in the cache.
-/

set_option autoImplicit false

namespace CodeMetrics

/-- The word for a value that stands where something else is needed. -/
def Document.described : Document → String
  | .string _ => "string"
  | .list _ => "array"
  | d => d.typeName

namespace Dialect

/-- Checks that a tree is a module: an object with a list of statements and usable lines. -/
def validateRoot (d : Dialect) (tree : Document) : Except Error Unit :=
  match tree with
  | .object _ =>
    match d.body.read tree with
    | .null => .error .missingBody
    | .list _ => do
      match ← tree.lines?.mapError .fault with
      | none => throw .noLines
      | some _ => return ()
    | other => .error (.bodyNotAList other.described)
  | other => .error (.notAnObject other.described)

/-- A root that is accepted has usable lines. -/
theorem exists_lines_of_valid {d : Dialect} {tree : Document}
    (valid : d.validateRoot tree = .ok ()) :
    ∃ lines, tree.lines? = .ok (some lines) := by
  unfold validateRoot at valid
  cases hlines : tree.lines? with
  | error fault =>
    rw [hlines] at valid
    split at valid
    · split at valid <;> cases valid
    · cases valid
  | ok found =>
    cases found with
    | some lines => exact ⟨lines, rfl⟩
    | none =>
      rw [hlines] at valid
      split at valid
      · split at valid <;> cases valid
      · cases valid

/-- The report on a tree that is known to be a module. -/
def measure (d : Dialect) (s : Settings) (tree : Document) : Except Error Report := do
  let w ← d.walk s tree
  let tree := w.tree.map Number.int Document.string
  (Report.build s tree (w.dependencies.map (·.map Document.int)) w.errors).mapError
    fun cause => .fault (.arithmetic cause)

/-- The report on a tree. -/
def analyze (d : Dialect) (s : Settings) (tree : Document) : Except Error Report := do
  d.validateRoot tree
  d.measure s tree

end Dialect

/-- Settings, the dialect they name, and a cache of reports if one is kept. -/
structure Analyzer where
  settings : Settings
  dialect : Dialect
  cache : Option (Cache Report)

namespace Analyzer

/-- An analyzer that keeps up to `cacheSize` reports, and none if that is not positive. -/
def create (r : Registry) (s : Settings) (cacheSize : Number) : Except Error Analyzer := do
  let dialect ← r.choose s
  let cache ←
    if Number.below 0 cacheSize then some <$> Cache.create cacheSize none else pure none
  return { settings := s, dialect, cache }

/-- The report on a tree, taken from the cache if it is there. Reports do not age, so the
time of the requests does not matter. -/
def analyze (a : Analyzer) (tree : Document) : Except Error Report × Analyzer :=
  match a.dialect.validateRoot tree with
  | .error e => (.error e, a)
  | .ok () =>
    match a.cache with
    | none => (a.dialect.measure a.settings tree, a)
    | some cache =>
      let key := a.settings.keyFor tree
      match cache.get 0 key with
      | .error cause => (.error (.fault cause), a)
      | .ok (some report, cache) => (.ok report, { a with cache := some cache })
      | .ok (none, cache) =>
        match a.dialect.measure a.settings tree with
        | .error e => (.error e, { a with cache := some cache })
        | .ok report =>
          (.ok report, { a with cache := some (cache.put 0 key tree.hash report) })

/-- Drops all reports from the cache. -/
def clearCache (a : Analyzer) : Analyzer :=
  { a with cache := a.cache.map Cache.clear }

end Analyzer

/-- The report on a tree under the settings that some options describe. -/
def analyze (r : Registry) (o : Options) (tree : Document) : Except Error Report := do
  let s ← o.settings
  let d ← r.choose s
  d.analyze s tree

end CodeMetrics
