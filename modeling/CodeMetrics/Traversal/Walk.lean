import CodeMetrics.Dialect
import CodeMetrics.Scope.Tree

/-!
# `CodeMetrics.Traversal.Walk`: what a traversal collects

A `Walk` is the state of a traversal: the scopes with their counts, the dependencies, the
problems met and the unknown kinds among them. Each step of a traversal is one function on
it.

A node of an unknown kind ends the traversal in strict mode. Otherwise each unknown kind is
recorded once.
-/

set_option autoImplicit false

namespace CodeMetrics

/-- What a traversal has collected. Dependencies and problems stand in the order they were
met, and `unsupported` holds the unknown kinds among them. -/
structure Walk where
  tree : ScopeTree Int String
  found : List (Dependency Int) := []
  errors : List Diagnostic := []
  unsupported : List String := []

namespace Walk

/-- The dependencies in the order of their lines. -/
def dependencies (w : Walk) : List (Dependency Int) :=
  Dependency.inLineOrder w.found

/-- Adds what a node contributes. -/
def record (w : Walk) (s : Settings) (c : Contribution) : Walk :=
  let tree := (w.tree.addLogical c.lloc).addCyclomatic c.cyclomatic
  let tree := c.operators.foldl ScopeTree.addOperator tree
  let tree := c.operands.foldl ScopeTree.addOperand tree
  { w with tree, found := w.found ++ (c.dependency.map (·.resolved s)).toList }

/-- The kind under which an unknown node is reported. -/
def reportedKind (node : Document) : String :=
  match node.kind? with
  | none | some "" => "<untyped>"
  | some kind => kind

/-- The error for a node of an unknown kind. -/
def unknownKind (d : Dialect) (node : Document) : Except Fault Error := do
  let lines ← node.lines?
  return .unsupportedSyntax (reportedKind node) d.name (lines.map Lines.first)
    (lines.map Lines.last)

/-- Meets a node of an unknown kind: an error in strict mode, a record the first time
otherwise. -/
def meetUnknown (w : Walk) (d : Dialect) (s : Settings) (node : Document) : Except Error Walk := do
  let error ← (unknownKind d node).mapError .fault
  if s.on .strict then throw error
  let kind := reportedKind node
  if w.unsupported.contains kind then return w
  return { w with
    errors := w.errors ++ [error.record "warning"]
    unsupported := w.unsupported ++ [kind] }

/-- Opens the scope of a node. Without lines of its own the node takes those of the
innermost open function. -/
def openScope (w : Walk) (p : Placed) (rule : Rule) (form : ScopeForm) : Except Error Walk := do
  let lines := ((← p.node.lines?.mapError .fault).getD w.tree.current.lines)
  let name := rule.naming.bind (·.name? p)
  match form with
  | .classBody =>
    return { w with tree := w.tree.openClass name (p.node.get "superClass").name? lines }
  | .function =>
    let params := p.node.parameters.map Document.parameterName
    return { w with tree := w.tree.push name lines params }

/-- Closes the innermost scope of the given form. -/
def closeScope (w : Walk) (form : ScopeForm) : Except Error Walk := do
  let tree ← (match form with
    | .classBody => w.tree.closeClass
    | .function => w.tree.pop).mapError .scope
  return { w with tree }

end Walk

end CodeMetrics
