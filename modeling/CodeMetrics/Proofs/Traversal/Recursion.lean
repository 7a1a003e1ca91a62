import CodeMetrics.Traversal

/-!
# `CodeMetrics.Proofs.Traversal.Recursion`: the traversal as a recursion on the tree

`Walk.run` works on a list of pending tasks. The textbook traversal needs no such list: it
handles a node and then calls itself on the children. This module defines that traversal
(`Walk.traverse`) and proves that the two agree,

    w.run d s (.visit p :: rest) = w.traverse d s p >>= (·.run d s rest)

whatever else is pending (`run_visit_eq_traverse`). The equation is between results, so it
covers everything that is collected and, where the traversal fails, the error it fails with.

A step of `Walk.run` has two parts. `Walk.perform` is what the step does to the walk, and
`Task.next` is the work that it puts in front of the rest. `run_cons` says so for every
task at once, and the theorems about runs start from there.
-/

set_option autoImplicit false

namespace CodeMetrics

/-! ### One step -/

/-- What a task does to the walk, without the work that comes out of it. -/
def Walk.perform (d : Dialect) (s : Settings) (w : Walk) : Task → Except Error Walk
  | .visit p =>
    match d.ruleFor p.node with
    | none => w.meetUnknown d s p.node
    | some rule => do return w.record s (← (rule.read s p).mapError .fault)
  | .openScope p rule form => w.openScope p rule form
  | .closeScope form => w.closeScope form

/-- The work that comes out of a task. A rule that cannot be read gives none, since the
traversal ends there. -/
def Task.next (d : Dialect) (s : Settings) : Task → List Task
  | .visit p =>
    match d.ruleFor p.node with
    | none => visits p.node (p.node.children [])
    | some rule =>
      match rule.read s p with
      | .ok c => below rule p c.ignored
      | .error _ => []
  | .openScope _ _ _ | .closeScope _ => []

/-- A run performs the first task and goes on with the work that comes out of it. -/
theorem Walk.run_cons (d : Dialect) (s : Settings) (w : Walk) (task : Task)
    (rest : List Task) :
    w.run d s (task :: rest) =
      w.perform d s task >>= fun w => w.run d s (task.next d s ++ rest) := by
  cases task with
  | visit p =>
    cases hrule : d.ruleFor p.node with
    | none =>
      rw [run_visit_unknown hrule]
      simp only [perform, Task.next, hrule]
      rfl
    | some rule =>
      cases hread : rule.read s p with
      | error fault =>
        rw [run_visit_fault hrule hread]
        simp only [perform, Task.next, hrule, hread]
        rfl
      | ok c =>
        rw [run_visit hrule hread]
        simp only [perform, Task.next, hrule, hread]
        rfl
  | openScope p rule form => exact run_openScope d s w p rule form rest
  | closeScope form => exact run_closeScope d s w form rest

/-- The work that comes out of a task weighs less than the task. -/
theorem Task.totalWeight_next_lt (d : Dialect) (s : Settings) (task : Task) :
    totalWeight (task.next d s) < task.weight := by
  cases task with
  | visit p =>
    have hpos := Document.size_pos p.node
    simp only [next, weight]
    split
    · exact totalWeight_visits_children_lt p []
    · split
      · exact totalWeight_below_lt _ p _
      · simp only [totalWeight]; omega
  | openScope p rule form => exact Nat.one_pos
  | closeScope form => exact Nat.one_pos

/-! ### The recursion -/

namespace Document

/-- Leaving some children out makes them no larger. -/
theorem sizeChildren_filter_le (keep : Child → Bool) (cs : List Child) :
    sizeChildren (cs.filter keep) ≤ sizeChildren cs := by
  have := Task.sizeChildren_filter_add keep cs
  omega

/-- A child is no larger than all children together. -/
theorem size_le_sizeChildren {cs : List Child} {c : Child} (h : c ∈ cs) :
    c.node.size ≤ sizeChildren cs := by
  induction cs with
  | nil => cases h
  | cons first rest ih =>
    simp only [sizeChildren]
    rcases List.mem_cons.mp h with rfl | h
    · omega
    · have := ih h
      omega

/-- A child of a node is smaller than the node. -/
theorem size_lt_of_mem_children {node : Document} {ignored : List String} {c : Child}
    (h : c ∈ node.children ignored) : c.node.size < node.size :=
  Nat.lt_of_le_of_lt (size_le_sizeChildren h) (sizeChildren_children_lt node ignored)

end Document

namespace Walk

mutual

/-- Traverses the tree at a place. The node is handled first. Below an ordinary node the
children are traversed in text order. A node that opens a scope has the children under its
scope keys traversed outside of it and the others inside. -/
def traverse (d : Dialect) (s : Settings) (w : Walk) (p : Placed) : Except Error Walk :=
  match d.ruleFor p.node with
  | none => do
    let w ← w.meetUnknown d s p.node
    traverseAll d s w p.node (p.node.children [])
  | some rule => do
    let c ← (rule.read s p).mapError .fault
    let w := w.record s c
    let children := p.node.children c.ignored
    match rule.opens with
    | none => traverseAll d s w p.node children
    | some form =>
      let w ← traverseAll d s w p.node (children.filter fun c => rule.scopeKeys.contains c.key)
      let w ← w.openScope p rule form
      let w ← traverseAll d s w p.node (children.filter fun c => !rule.scopeKeys.contains c.key)
      w.closeScope form
termination_by (p.node.size, 0)
decreasing_by
  · exact Prod.Lex.left _ _ (Document.sizeChildren_children_lt _ _)
  · exact Prod.Lex.left _ _ (Document.sizeChildren_children_lt _ _)
  · exact Prod.Lex.left _ _ (Nat.lt_of_le_of_lt (Document.sizeChildren_filter_le _ _)
      (Document.sizeChildren_children_lt _ _))
  · exact Prod.Lex.left _ _ (Nat.lt_of_le_of_lt (Document.sizeChildren_filter_le _ _)
      (Document.sizeChildren_children_lt _ _))

/-- Traverses the trees at some children of a node, one after the other. -/
def traverseAll (d : Dialect) (s : Settings) (w : Walk) (parent : Document) :
    List Child → Except Error Walk
  | [] => .ok w
  | c :: rest => do
    let w ← traverse d s w (c.placed parent)
    traverseAll d s w parent rest
termination_by cs => (Document.sizeChildren cs, 1)
decreasing_by
  · -- An only child is as large as the list, and then the second component decides.
    have hle : (c.placed parent).node.size ≤ Document.sizeChildren (c :: rest) :=
      Document.size_le_sizeChildren List.mem_cons_self
    rcases Nat.lt_or_eq_of_le hle with hlt | heq
    · exact Prod.Lex.left _ _ hlt
    · rw [heq]
      exact Prod.Lex.right _ Nat.one_pos
  · have := Document.size_pos c.node
    exact Prod.Lex.left _ _ (by simp only [Document.sizeChildren]; omega)

end

/-! ### The run and the recursion agree -/

variable {d : Dialect} {s : Settings}

/-- Pending visits of some children amount to traversing them, if each visit amounts to
traversing the child. -/
theorem run_visits_of (parent : Document) (cs : List Child)
    (h : ∀ c ∈ cs, ∀ (w : Walk) (rest : List Task),
      w.run d s (.visit (c.placed parent) :: rest) =
        w.traverse d s (c.placed parent) >>= fun w => w.run d s rest)
    (w : Walk) (rest : List Task) :
    w.run d s (Task.visits parent cs ++ rest) =
      w.traverseAll d s parent cs >>= fun w => w.run d s rest := by
  induction cs generalizing w with
  | nil =>
    rw [traverseAll]
    rfl
  | cons c cs ih =>
    have hrest := ih fun c hc => h c (List.mem_cons_of_mem _ hc)
    show w.run d s (.visit (c.placed parent) :: (Task.visits parent cs ++ rest)) = _
    rw [h c List.mem_cons_self, traverseAll, bind_assoc]
    exact bind_congr fun w => hrest w

/-- A pending visit amounts to traversing the tree at that place, whatever else is
pending. -/
theorem run_visit_eq_traverse (w : Walk) (p : Placed) (rest : List Task) :
    w.run d s (.visit p :: rest) =
      w.traverse d s p >>= fun w => w.run d s rest := by
  -- The tasks below a node are for smaller trees, whatever order they are pending in.
  induction hsize : p.node.size using Nat.strongRecOn generalizing w p rest with
  | ind size ih =>
    have hvisits : ∀ (ignored : List String) (cs : List Child),
        (∀ c ∈ cs, c ∈ p.node.children ignored) → ∀ (w : Walk) (rest : List Task),
          w.run d s (Task.visits p.node cs ++ rest) =
            w.traverseAll d s p.node cs >>= fun w => w.run d s rest := by
      intro ignored cs hcs
      refine run_visits_of p.node cs fun c hc w rest => ?_
      have hlt : c.node.size < size := hsize ▸ Document.size_lt_of_mem_children (hcs c hc)
      exact ih _ hlt w (c.placed p.node) rest rfl
    rw [run_cons, traverse]
    cases hrule : d.ruleFor p.node with
    | none =>
      simp only [perform, Task.next, hrule, bind_assoc]
      exact bind_congr fun w => hvisits [] _ (fun _ hc => hc) w rest
    | some rule =>
      cases hread : rule.read s p with
      | error fault =>
        simp only [perform, hrule, hread]
        rfl
      | ok c =>
        simp only [perform, Task.next, hrule, hread, Task.below]
        cases hopens : rule.opens with
        | none => exact hvisits c.ignored _ (fun _ hc => hc) (w.record s c) rest
        | some form =>
          show (w.record s c).run d s (_ ++ rest) =
            (do
              let w ← traverseAll d s (w.record s c) p.node _
              let w ← w.openScope p rule form
              let w ← traverseAll d s w p.node _
              w.closeScope form) >>= fun w => w.run d s rest
          -- Outside, opening, inside, closing: each group comes off the front in turn.
          simp only [List.append_assoc, List.cons_append, bind_assoc]
          rw [hvisits c.ignored _ fun _ hc => (List.mem_filter.mp hc).1]
          refine bind_congr fun w => ?_
          rw [run_cons]
          show w.openScope p rule form >>= _ = _
          refine bind_congr fun w => ?_
          show w.run d s (Task.visits p.node _ ++ _) = _
          rw [hvisits c.ignored _ fun _ hc => (List.mem_filter.mp hc).1]
          exact bind_congr fun w => run_closeScope d s w form rest

end Walk

end CodeMetrics
