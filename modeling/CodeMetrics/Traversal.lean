import CodeMetrics.Traversal.Task
import CodeMetrics.Traversal.Walk

/-!
# `CodeMetrics.Traversal`: one pass over a tree

The traversal visits each node once, from the root down and in text order, and adds what
the node contributes to the open scopes. Each visit replaces one task by tasks for strictly
smaller trees, which is why the traversal ends: `Task.totalWeight` goes down with every
step.

The children of a node of an unknown kind are visited like any others.
-/

set_option autoImplicit false

namespace CodeMetrics

/-- The rule for a node. -/
def Dialect.ruleFor (d : Dialect) (node : Document) : Option Rule :=
  node.kind?.bind d.rule?

/-- Carries out the tasks one after the other. -/
def Walk.run (d : Dialect) (s : Settings) (w : Walk) : List Task → Except Error Walk
  | [] => .ok w
  | .visit p :: rest =>
    match d.ruleFor p.node with
    | none =>
      match w.meetUnknown d s p.node with
      | .error e => .error e
      | .ok w => w.run d s (Task.visits p.node (p.node.children []) ++ rest)
    | some rule =>
      match rule.read s p with
      | .error e => .error (.fault e)
      | .ok c => (w.record s c).run d s (Task.below rule p c.ignored ++ rest)
  | .openScope p rule form :: rest =>
    match w.openScope p rule form with
    | .error e => .error e
    | .ok w => w.run d s rest
  | .closeScope form :: rest =>
    match w.closeScope form with
    | .error e => .error e
    | .ok w => w.run d s rest
termination_by tasks => Task.totalWeight tasks
decreasing_by
  · have := Task.totalWeight_visits_children_lt p []
    simp only [Task.totalWeight_append, Task.totalWeight, Task.weight]
    omega
  · have := Task.totalWeight_below_lt rule p c.ignored
    simp only [Task.totalWeight_append, Task.totalWeight, Task.weight]
    omega
  · simp only [Task.totalWeight, Task.weight]; omega
  · simp only [Task.totalWeight, Task.weight]; omega

/-! ### One step at a time -/

namespace Walk

/-- Nothing is left to do. -/
theorem run_nil (d : Dialect) (s : Settings) (w : Walk) : w.run d s [] = .ok w := by
  rw [run]

/-- A node with a rule adds what the rule reads there, and the work below it comes next. -/
theorem run_visit {d : Dialect} {s : Settings} {w : Walk} {p : Placed} {rule : Rule}
    {c : Contribution} (known : d.ruleFor p.node = some rule) (read : rule.read s p = .ok c)
    (rest : List Task) :
    w.run d s (.visit p :: rest) =
      (w.record s c).run d s (Task.below rule p c.ignored ++ rest) := by
  rw [run]; simp only [known, read]

/-- A rule that cannot be read at a node ends the traversal. -/
theorem run_visit_fault {d : Dialect} {s : Settings} {w : Walk} {p : Placed} {rule : Rule}
    {fault : Fault} (known : d.ruleFor p.node = some rule) (read : rule.read s p = .error fault)
    (rest : List Task) :
    w.run d s (.visit p :: rest) = .error (.fault fault) := by
  rw [run]; simp only [known, read]

/-- A node of an unknown kind is met, and all of its children come next. -/
theorem run_visit_unknown {d : Dialect} {s : Settings} {w : Walk} {p : Placed}
    (unknown : d.ruleFor p.node = none) (rest : List Task) :
    w.run d s (.visit p :: rest) =
      (w.meetUnknown d s p.node).bind fun w =>
        w.run d s (Task.visits p.node (p.node.children []) ++ rest) := by
  rw [run]; simp only [unknown]
  cases w.meetUnknown d s p.node <;> rfl

/-- A scope is opened before the rest is done. -/
theorem run_openScope (d : Dialect) (s : Settings) (w : Walk) (p : Placed) (rule : Rule)
    (form : ScopeForm) (rest : List Task) :
    w.run d s (.openScope p rule form :: rest) =
      (w.openScope p rule form).bind fun w => w.run d s rest := by
  rw [run]; cases w.openScope p rule form <;> rfl

/-- A scope is closed before the rest is done. -/
theorem run_closeScope (d : Dialect) (s : Settings) (w : Walk) (form : ScopeForm)
    (rest : List Task) :
    w.run d s (.closeScope form :: rest) =
      (w.closeScope form).bind fun w => w.run d s rest := by
  rw [run]; cases w.closeScope form <;> rfl

end Walk

/-! ### From the root -/

/-- The root with the kind that it is taken for if it has none. -/
def Dialect.typedRoot (d : Dialect) (root : Document) : Document :=
  if root.isNode then root else root.set "type" (.string d.rootKind)

/-- Traverses a tree. The root has to have usable lines. -/
def Dialect.walk (d : Dialect) (s : Settings) (root : Document) : Except Error Walk := do
  match ← root.lines?.mapError .fault with
  | none => throw .noLines
  | some lines => Walk.run d s { tree := .start lines } [.visit { node := d.typedRoot root }]

end CodeMetrics
