import CodeMetrics.Node
import CodeMetrics.Rule

/-!
# `CodeMetrics.Traversal.Task`: what is left to do

The work that a traversal has left is a list of tasks, so that deep trees need no deep
recursion. A node that opens a scope has the children under its scope keys visited first,
then the scope is opened, the other children are visited, and the scope is closed.

`Task.totalWeight` bounds the steps that a list of tasks takes. The work below a node
weighs less than the visit of the node (`Task.totalWeight_below_lt`).
-/

set_option autoImplicit false

namespace CodeMetrics

/-- A step that is still to be made. -/
inductive Task where
  | visit (p : Placed)
  | openScope (p : Placed) (rule : Rule) (form : ScopeForm)
  | closeScope (form : ScopeForm)

namespace Task

/-- Visits of the given children. -/
def visits (parent : Document) (cs : List Child) : List Task :=
  cs.map fun c => .visit (c.placed parent)

/-- What is to be done below a node: visits of its children, and the scope that the node
opens between those that belong outside and those that belong inside. -/
def below (rule : Rule) (p : Placed) (ignored : List String) : List Task :=
  let children := p.node.children ignored
  match rule.opens with
  | none => visits p.node children
  | some form =>
    let outside := children.filter fun c => rule.scopeKeys.contains c.key
    let inside := children.filter fun c => !rule.scopeKeys.contains c.key
    visits p.node outside ++ [.openScope p rule form] ++ visits p.node inside ++
      [.closeScope form]

/-- A bound on the number of steps that a task takes. -/
def weight : Task → Nat
  | .visit p => 3 * p.node.size
  | _ => 1

/-- The weights of several tasks, added up. -/
def totalWeight : List Task → Nat
  | [] => 0
  | task :: rest => task.weight + totalWeight rest

/-- The weights of two lists of tasks add up. -/
theorem totalWeight_append (a b : List Task) :
    totalWeight (a ++ b) = totalWeight a + totalWeight b := by
  induction a with
  | nil => simp [totalWeight]
  | cons task rest ih => simp only [List.cons_append, totalWeight, ih]; omega

/-- Visits weigh three times what the children contain. -/
theorem totalWeight_visits (parent : Document) (cs : List Child) :
    totalWeight (visits parent cs) = 3 * Document.sizeChildren cs := by
  induction cs with
  | nil => rfl
  | cons c rest ih =>
    have head : (Task.visit (c.placed parent)).weight = 3 * c.node.size := rfl
    simp only [visits] at ih
    simp only [visits, List.map_cons, totalWeight, ih, head, Document.sizeChildren]
    omega

/-- Splitting children in two keeps their sizes. -/
theorem sizeChildren_filter_add (keep : Child → Bool) (cs : List Child) :
    Document.sizeChildren (cs.filter keep) + Document.sizeChildren (cs.filter fun c => !keep c) =
      Document.sizeChildren cs := by
  induction cs with
  | nil => rfl
  | cons c rest ih =>
    cases h : keep c <;> simp [h, Document.sizeChildren] <;> omega

/-- The work below a node weighs less than the visit of the node. -/
theorem totalWeight_below_lt (rule : Rule) (p : Placed) (ignored : List String) :
    totalWeight (below rule p ignored) < 3 * p.node.size := by
  have smaller := Document.sizeChildren_children_lt p.node ignored
  unfold below
  cases rule.opens with
  | none => simp only [totalWeight_visits]; omega
  | some form =>
    have split := sizeChildren_filter_add (fun c => rule.scopeKeys.contains c.key)
      (p.node.children ignored)
    simp only [totalWeight_append, totalWeight_visits, totalWeight, weight]
    omega

/-- The visits of all children weigh less than the visit of the node. -/
theorem totalWeight_visits_children_lt (p : Placed) (ignored : List String) :
    totalWeight (visits p.node (p.node.children ignored)) < 3 * p.node.size := by
  have smaller := Document.sizeChildren_children_lt p.node ignored
  rw [totalWeight_visits]
  omega

end Task

end CodeMetrics
