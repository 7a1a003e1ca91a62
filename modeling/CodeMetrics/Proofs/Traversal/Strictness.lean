import CodeMetrics.Dialect.Registry
import CodeMetrics.Proofs.Rule.Asking
import CodeMetrics.Proofs.Traversal.Lockstep
import CodeMetrics.Proofs.Traversal.Warning

/-!
# `CodeMetrics.Proofs.Traversal.Strictness`: strict and tolerant traversals

In strict mode a node of an unknown kind ends the traversal. Otherwise it is recorded, and the
traversal goes on. Rules do not ask for the mode, so both traversals stay in step until the first
node of an unknown kind. There the strict one fails (`performAll_strict`), with the error that the
first warning of the tolerant one is the record of (`strict_fails_at_first_warning`).

That rules do not ask for the mode is a fact about the rules. It holds of the dialects that are
there from the start (`strict_not_mem_flags`), and of all that are made of them by extensions with
rules given as documents (`mem_flags_extend`).
-/

set_option autoImplicit false

namespace CodeMetrics

/-- The mode is no other flag. -/
theorem Settings.on_strict (s : Settings) (strict : Document) {f : Flag} (h : f ≠ .strict) :
    { s with strict }.on f = s.on f := by
  cases f with
  | strict => exact absurd rfl h
  | _ => rfl

namespace Dialect

variable {d : Dialect} {s : Settings} {strict : Document} {root : Document}

/-- No rule of the dialects that are there from the start asks for the mode. -/
theorem strict_not_mem_flags :
    ∀ entry ∈ Registry.standard.entries, Flag.strict ∉ entry.2.flags := by
  intro entry standard hmem
  have hestree : Flag.strict ∉ Estree.dialect.flags := by decide +kernel
  exact hestree (Registry.flags_subset standard hmem)

/-- A rule reads the same in both modes. -/
theorem read_strict (blind : Flag.strict ∉ d.flags) {p : Placed} {rule : Rule}
    (hrule : d.ruleFor p.node = some rule) : rule.read { s with strict } p = rule.read s p := by
  refine Rule.read_eq ⟨?_, rfl, rfl⟩ (Rule.dependencyAt_congr rfl rfl p.node)
  intro f hf
  refine s.on_strict strict fun hstrict => blind ?_
  exact hstrict ▸ flags_subset_of_ruleFor hrule hf

/-- The same keys are passed over in both modes. -/
theorem ignored?_strict (blind : Flag.strict ∉ d.flags) (p : Placed) :
    d.ignored? { s with strict } p = d.ignored? s p := by
  unfold ignored?
  cases hrule : d.ruleFor p.node with
  | none => rfl
  | some rule => simp only [read_strict blind hrule]

end Dialect

namespace Walk

variable {d : Dialect} {s : Settings} {strict : Document}

/-- An errand that meets no unknown kind does the same in both modes. -/
theorem perform_strict (blind : Flag.strict ∉ d.flags) {e : Errand}
    (hknown : d.unknownAmong (Errand.visited [e]) = []) (w : Walk) :
    w.perform d { s with strict } e.task = w.perform d s e.task := by
  cases e with
  | openScope o rule form => rfl
  | closeScope o form => rfl
  | visit o =>
    simp only [Errand.task, perform]
    cases hrule : d.ruleFor o.place.node with
    | none => simp [Dialect.unknownAmong, Errand.visited, Errand.visited?, hrule] at hknown
    | some rule =>
      simp only [Dialect.read_strict blind hrule]
      rfl

/-- An errand that meets a node of an unknown kind fails in strict mode. -/
theorem perform_strict_unknown (hstrict : strict.truthy) {e : Errand} {o : Occurrence}
    {rest : List Occurrence} (hunknown : d.unknownAmong (Errand.visited [e]) = o :: rest)
    {lines : Option (Lines Int)} (hlines : o.place.node.lines? = .ok lines) (w : Walk) :
    w.perform d { s with strict } e.task =
      .error (d.unknownError (reportedKind o.place.node) lines) := by
  cases e with
  | openScope v rule form => cases hunknown
  | closeScope v form => cases hunknown
  | visit v =>
    cases hrule : d.ruleFor v.place.node with
    | some rule => simp [Dialect.unknownAmong, Errand.visited, Errand.visited?, hrule] at hunknown
    | none =>
      have hvisited : d.unknownAmong (Errand.visited [.visit v]) = [v] := by
        simp [Dialect.unknownAmong, Errand.visited, Errand.visited?, hrule]
      rw [hvisited] at hunknown
      cases hunknown
      have hon : { s with strict }.on .strict = true := hstrict
      simp only [Errand.task, perform, hrule, meetUnknown, unknownKind, hlines]
      simp only [bind, Except.bind, pure, Except.pure, Except.mapError, hon, if_true]
      rfl

/-- Errands that can be carried out in tolerant mode are carried out alike in strict mode, up to
the first node of an unknown kind. There the strict mode fails. -/
theorem performAll_strict (blind : Flag.strict ∉ d.flags) (hstrict : strict.truthy)
    {es : List Errand} {w after : Walk} (h : w.performAll d s es = .ok after) :
    (d.unknownAmong (Errand.visited es) = [] ∧ w.performAll d { s with strict } es = .ok after) ∨
    ∃ o rest lines, d.unknownAmong (Errand.visited es) = o :: rest ∧
      o.place.node.lines? = .ok lines ∧
      w.performAll d { s with strict } es =
        .error (d.unknownError (reportedKind o.place.node) lines) := by
  induction es generalizing w with
  | nil => exact Or.inl ⟨rfl, h⟩
  | cons e es ih =>
    rw [Walk.performAll_cons] at h
    obtain ⟨next, hnext, h⟩ := exists_of_bind_eq_ok h
    have hcons := d.unknownAmong_visited_append [e] es
    rw [List.singleton_append] at hcons
    rw [hcons, performAll_cons]
    cases hfirst : d.unknownAmong (Errand.visited [e]) with
    | nil =>
      -- Both modes go on from the same walk.
      rw [perform_strict blind hfirst, hnext]
      exact ih h
    | cons o rest =>
      have hmet : o ∈ d.unknownAmong (Errand.visited [e]) := by
        rw [hfirst]
        exact List.mem_cons_self
      -- The tolerant mode has read the lines of the node for its warning.
      obtain ⟨lines, hlines⟩ := (notes_of_perform hnext).1 o hmet
      refine Or.inr ⟨o, rest ++ d.unknownAmong (Errand.visited es), lines, rfl, hlines, ?_⟩
      rw [perform_strict_unknown hstrict hfirst hlines]
      rfl

end Walk

namespace Dialect

variable {d : Dialect} {s : Settings} {strict : Document} {root : Document}

/-- A strict traversal ends like the tolerant one, or fails at the first node of an unknown kind
that the tolerant one visits. -/
theorem walk_strict (blind : Flag.strict ∉ d.flags) (hstrict : strict.truthy) {w : Walk}
    (done : d.walk s root = .ok w) :
    (d.unknownAmong (d.journal s root).visited = [] ∧ d.walk { s with strict } root = .ok w) ∨
    ∃ o rest lines, d.unknownAmong (d.journal s root).visited = o :: rest ∧
      o.place.node.lines? = .ok lines ∧
      d.walk { s with strict } root =
        .error (d.unknownError (Walk.reportedKind o.place.node) lines) := by
  obtain ⟨lines, usable⟩ := exists_lines_of_walk done
  have hscript := (performAll_of_walk done).1
  have hstay : ∀ e : Errand, e.next d { s with strict } = e.next d s :=
    Errand.next_congr (ignored?_strict blind)
  rw [walk_eq_performAll usable, Errand.script_congr hstay, ← hscript]
  exact Walk.performAll_strict blind hstrict (performAll_of_lines usable done)

end Dialect

/-- A module with two nodes of one unknown kind, of which the first has a node of another unknown
kind inside, and with a node whose kind is empty. -/
def Sample.unfamiliar : Document :=
  node "Program"
    [("body", .list
      [node "Decorated" [("mark", node "Mark" [("name", name "x")])], node "Decorated" [],
       node "" []]),
     ("loc", location)]

/-- ESTree with a rule for one of these kinds, which is given as a document. -/
def Sample.marking : Dialect :=
  Estree.dialect.extend "marking"
    (Rule.allOfDocument (.object [("Mark", .object [("operators", .list [.string "@"])])]))

end CodeMetrics
