import CodeMetrics.Proofs.Result
import CodeMetrics.Proofs.Traversal.Journal

/-!
# `CodeMetrics.Proofs.Traversal.Lockstep`: two traversals of one tree

Two traversals of one tree under different settings are compared step by step. They stay in step
as long as both pass over the same keys, since only that decides what comes next
(`Task.next_congr`, `Errand.script_congr`). What relates the two walks and is kept up by each step
then relates them at the end. There are two forms of this, for two sorts of questions:

* `Dialect.walks_agree`: no step can tell the settings apart by failing. Both traversals come to
  their ends, or both fail with the same error.
* `Dialect.walks_both`: a step may fail in one traversal only. What is known then is about two
  traversals that come to their ends.

A traversal is nothing but its script, carried out (`walk_eq_performAll`). This is how errors are
compared that only one of two traversals has.
-/

set_option autoImplicit false

namespace CodeMetrics

/-! ### What comes next -/

/-- Settings that pass over the same keys lead from each errand to the same ones. -/
theorem Errand.next_congr {d : Dialect} {s t : Settings}
    (h : ∀ p, d.ignored? t p = d.ignored? s p) (e : Errand) : e.next d t = e.next d s := by
  cases e with
  | visit o => simp only [next, h]
  | openScope o rule form => rfl
  | closeScope o form => rfl

/-- Settings that pass over the same keys lead from each task to the same ones. -/
theorem Task.next_congr {d : Dialect} {s t : Settings}
    (h : ∀ p, d.ignored? t p = d.ignored? s p) (task : Task) : task.next d t = task.next d s := by
  cases task with
  | visit p =>
    -- A task is what an errand is for, and it does not matter where the occurrence stands.
    have hnext := Errand.next_congr h (.visit { place := p })
    have htasks := congrArg (List.map Errand.task) hnext
    rwa [Errand.map_task_next, Errand.map_task_next] at htasks
  | openScope p rule form => rfl
  | closeScope form => rfl

/-- Rules and settings that lead from each errand to the same ones have the same scripts. -/
theorem Errand.script_congr {d d' : Dialect} {s t : Settings}
    (h : ∀ e : Errand, e.next d' t = e.next d s) (es : List Errand) :
    script d' t es = script d s es := by
  fun_induction script d s es with
  | case1 => rw [script]
  | case2 e rest ih => rw [script, h, ih]

/-! ### Two runs -/

namespace Walk

variable {d : Dialect} {s t : Settings}

/-- The first errand is carried out before the others. -/
theorem performAll_cons (w : Walk) (e : Errand) (es : List Errand) :
    w.performAll d s (e :: es) = w.perform d s e.task >>= fun w => w.performAll d s es := rfl

/-- A run carries out the script, and fails where an errand of it fails. -/
theorem run_eq_performAll (w : Walk) (es : List Errand) :
    w.run d s (es.map Errand.task) = w.performAll d s (Errand.script d s es) := by
  fun_induction Errand.script d s es generalizing w with
  | case1 =>
    rw [List.map_nil, run_nil]
    rfl
  | case2 e rest ih =>
    rw [List.map_cons, run_cons, performAll_cons]
    refine bind_congr fun after => ?_
    rw [← ih, List.map_append, Errand.map_task_next]

/-- What is kept up by each step, where both fail alike, is kept up by runs. -/
theorem run_agree {R : Walk → Walk → Prop}
    (hnext : ∀ task : Task, task.next d t = task.next d s)
    (hstep : ∀ (task : Task) (v w : Walk), R v w →
      Agree R (v.perform d s task) (w.perform d t task))
    (tasks : List Task) {v w : Walk} (h : R v w) :
    Agree R (v.run d s tasks) (w.run d t tasks) := by
  -- A step replaces a task by lighter ones, which are the same for both.
  induction hweight : Task.totalWeight tasks using Nat.strongRecOn generalizing tasks v w with
  | ind weight ih =>
    cases tasks with
    | nil =>
      rw [run_nil, run_nil]
      exact .ok h
    | cons task rest =>
      have hless := Task.totalWeight_next_lt d s task
      have hpending : Task.totalWeight (task.next d s ++ rest) < weight := by
        rw [← hweight, Task.totalWeight_append, Task.totalWeight]
        omega
      rw [run_cons, run_cons, hnext]
      refine (hstep task v w h).bind fun v' w' h' => ?_
      exact ih _ hpending _ h' rfl

/-- What is kept up by each step that both can take is kept up by runs that come to their
ends. -/
theorem run_both {R : Walk → Walk → Prop}
    (hstep : ∀ (task : Task) (v w v' w' : Walk), R v w → v.perform d s task = .ok v' →
      w.perform d t task = .ok w' → R v' w' ∧ task.next d t = task.next d s)
    {tasks : List Task} {v w v' w' : Walk} (h : R v w) (hv : v.run d s tasks = .ok v')
    (hw : w.run d t tasks = .ok w') : R v' w' := by
  -- On the work that is left, since a step replaces its task by several smaller ones.
  induction hweight : Task.totalWeight tasks using Nat.strongRecOn generalizing tasks v w with
  | ind weight ih =>
    cases tasks with
    | nil =>
      rw [run_nil] at hv hw
      cases hv
      cases hw
      exact h
    | cons task rest =>
      rw [run_cons] at hv hw
      obtain ⟨vnext, hvstep, hv⟩ := exists_of_bind_eq_ok hv
      obtain ⟨wnext, hwstep, hw⟩ := exists_of_bind_eq_ok hw
      obtain ⟨h', hnext⟩ := hstep task v w vnext wnext h hvstep hwstep
      have hless := Task.totalWeight_next_lt d s task
      have hpending : Task.totalWeight (task.next d s ++ rest) < weight := by
        rw [← hweight, Task.totalWeight_append, Task.totalWeight]
        omega
      rw [hnext] at hw
      exact ih _ hpending h' hv hw rfl

/-- Walks with the same problems meet a node of an unknown kind alike. What is kept up must not
depend on the problems. -/
theorem agree_meetUnknown {R : Walk → Walk → Prop} {v w : Walk}
    (hstrict : t.on .strict = s.on .strict) (herrors : w.errors = v.errors)
    (hunsupported : w.unsupported = v.unsupported) (h : R v w)
    (hnoted : ∀ errors unsupported, R { v with errors, unsupported } { w with errors, unsupported })
    (node : Document) : Agree R (v.meetUnknown d s node) (w.meetUnknown d t node) := by
  unfold meetUnknown
  rw [hstrict, herrors, hunsupported]
  refine Agree.bind_same _ fun error => ?_
  cases s.on .strict with
  | true => exact .error _
  | false =>
    simp only [Bool.false_eq_true, if_false]
    split
    · exact .ok h
    · exact .ok (hnoted _ _)

end Walk

/-! ### From the root -/

namespace Dialect

variable {d : Dialect} {s t : Settings} {root : Document}

/-- A traversal from usable lines carries out the script of the tree, and fails where an errand
of it fails. -/
theorem walk_eq_performAll {lines : Lines Int} (usable : root.lines? = .ok (some lines)) :
    d.walk s root = Walk.performAll d s { tree := .start lines }
      (Errand.script d s [.visit (d.top root)]) := by
  rw [walk_of_lines usable, ← Walk.run_eq_performAll]
  rfl

/-- Two traversals that no step can tell apart by failing end with walks that are related as each
step relates them, or fail alike. -/
theorem walks_agree {R : Walk → Walk → Prop}
    (hstart : ∀ lines, R { tree := .start lines } { tree := .start lines })
    (hignored : ∀ p, d.ignored? t p = d.ignored? s p)
    (hstep : ∀ (task : Task) (v w : Walk), R v w →
      Agree R (v.perform d s task) (w.perform d t task)) :
    Agree R (d.walk s root) (d.walk t root) := by
  unfold walk
  refine Agree.bind_same _ fun found => ?_
  cases found with
  | none => exact .error _
  | some lines => exact Walk.run_agree (Task.next_congr hignored) hstep _ (hstart lines)

/-- Two traversals that come to their ends do so with walks that are related as each step relates
them, if they stay in step. -/
theorem walks_both {R : Walk → Walk → Prop}
    (hstart : ∀ lines, R { tree := .start lines } { tree := .start lines })
    (hstep : ∀ (task : Task) (v w v' w' : Walk), R v w → v.perform d s task = .ok v' →
      w.perform d t task = .ok w' → R v' w' ∧ task.next d t = task.next d s)
    {v w : Walk} (hv : d.walk s root = .ok v) (hw : d.walk t root = .ok w) : R v w := by
  obtain ⟨lines, usable⟩ := exists_lines_of_walk hv
  rw [walk_of_lines usable] at hv hw
  exact Walk.run_both hstep (hstart lines) hv hw

end Dialect

end CodeMetrics
