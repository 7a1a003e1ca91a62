import CodeMetrics.Dependency
import CodeMetrics.Node.Name
import CodeMetrics.Rule.Count
import CodeMetrics.Rule.Token

/-!
# `CodeMetrics.Rule`: what a kind of node contributes

A rule says what the nodes of one kind add to the counts: logical lines, paths, operator
and operand tokens, a dependency. It also says which children are passed over, and whether
the node opens a scope. Rules are data. `Rule.read` reads one at a node and gives a
`Contribution`.

The settings enter through `Condition.flag` and through dependencies, and nowhere else.
-/

set_option autoImplicit false

namespace CodeMetrics

/-- The texts among the keys that a value lists. A value on its own is its only key. Lists
and objects cannot be keys. -/
def Document.keyTexts : Document → Except Fault (List String)
  | .list items =>
    if items.any isCollection then .error .unusableKeys else .ok (items.filterMap text?)
  | .object _ => .error .unusableKeys
  | d => .ok d.text?.toList

/-- The keys that are passed over. -/
inductive Skip where
  /-- The keys, if a condition holds. -/
  | when (condition : Condition) (keys : List String)
  /-- Keys given as a value. -/
  | given (value : Document)

/-- The keys passed over at a node. -/
def Skip.read (s : Settings) (p : Placed) : Skip → Except Fault (List String)
  | .when condition keys => do return if ← condition.holds s p then keys else []
  | .given value => value.keyTexts

/-- The keys whose children belong outside the scope that a node opens. -/
inductive ScopeKeys where
  | fixed (keys : List String)
  /-- Keys given as a value: a list of them, an object with them, or a text with them as
  parts. -/
  | given (value : Document)

namespace ScopeKeys

/-- Whether `part` stands somewhere in a text. -/
def occursIn (part : List Char) : List Char → Bool
  | [] => part.isEmpty
  | c :: rest => part.isPrefixOf (c :: rest) || occursIn part rest

/-- Whether keys can be looked up at all. -/
def usable : ScopeKeys → Bool
  | .fixed _ | .given (.list _) | .given (.string _) | .given (.object _) => true
  | .given _ => false

/-- Whether a key is among them. -/
def contains (key : String) : ScopeKeys → Bool
  | .fixed keys => keys.contains key
  | .given (.list items) => items.any fun item => item.isOneOf [key]
  | .given (.string text) => occursIn key.toList text.toList
  | .given (.object fields) => fields.any fun field => field.1 == key
  | .given _ => false

/-- The keys that a list gives. -/
def texts : ScopeKeys → List String
  | .fixed keys => keys
  | .given (.list items) => items.filterMap Document.text?
  | .given _ => []

end ScopeKeys

/-- The sorts of scopes that a node can open. -/
inductive ScopeForm where
  | function
  | classBody
  deriving DecidableEq, Repr

/-- Where a scope takes its name from. -/
inductive Naming where
  /-- The binding that the node is assigned to. -/
  | binding
  /-- The identifier of the node, then its binding. -/
  | ownThenBinding
  /-- The key of the node. -/
  | key

/-- The name of a scope. -/
def Naming.name? (p : Placed) : Naming → Option Document
  | .binding => p.bindingName?
  | .ownThenBinding => p.functionName?
  | .key => p.methodName?

/-- Where a dependency is found. -/
inductive DependencyForm where
  | call
  | source

/-- The dependency found at a node. -/
def DependencyForm.read (s : Settings) (node : Document) :
    DependencyForm → Except Fault (Option (Dependency Int))
  | .call => Dependency.ofCall s node
  | .source => Dependency.esm node

/-- What the nodes of one kind contribute. The children under `scopeKeys` belong to the
scope around the one that the node opens. -/
structure Rule where
  lloc : Count := .fixed 0
  cyclomatic : Count := .fixed 0
  operators : List Token := []
  operands : List Token := []
  skip : Skip := .when .always []
  opens : Option ScopeForm := none
  scopeKeys : ScopeKeys := .fixed []
  naming : Option Naming := none
  dependency : Option DependencyForm := none

/-- The formal parameters of a node. -/
def Document.parameters (d : Document) : List Document :=
  match d.get "params" with
  | .list items => items
  | _ => []

/-- What one node contributes. -/
structure Contribution where
  lloc : Int
  cyclomatic : Int
  operators : List String
  operands : List String
  dependency : Option (Dependency Int)
  ignored : List String

/-- Whether a rule asks for keys that cannot be looked up. It asks only at a node that opens
a scope and has children. -/
def Rule.lacksKeys (r : Rule) (p : Placed) (ignored : List String) : Bool :=
  r.opens.isSome && !r.scopeKeys.usable && !(p.node.children ignored).isEmpty

/-- Reads a rule at a node, part by part. The first part that cannot be read decides the
fault. -/
def Rule.read (r : Rule) (s : Settings) (p : Placed) : Except Fault Contribution := do
  let lloc ← r.lloc.read s p
  let cyclomatic ← r.cyclomatic.read s p
  let operators ← Token.readAll s p r.operators
  let operands ← Token.readAll s p r.operands
  let dependency ← match r.dependency with
    | some form => form.read s p.node
    | none => pure none
  let ignored ← r.skip.read s p
  if r.lacksKeys p ignored then throw .unusableKeys
  return { lloc, cyclomatic, operators, operands, dependency, ignored }

end CodeMetrics
