import CodeMetrics.Rule

/-!
# `CodeMetrics.Dialect`: the kinds of nodes a parser produces

A dialect gives each kind of node its rule. It also knows where the statements of a module
are found, and which kind a root without a kind is taken for. A dialect can be extended by
rules that replace or join those it has. An extension changes nothing for the kinds that it
does not name.
-/

set_option autoImplicit false

namespace CodeMetrics

/-- Where the statements of a module are found. -/
inductive BodyPlace where
  /-- Under a key of the root. -/
  | under (key : String)
  /-- Under `body` of the root, or of the program inside a root of the kind `File`. -/
  | fileOrProgram

/-- The statements of a module, null if there are none. -/
def BodyPlace.read (root : Document) : BodyPlace → Document
  | .under key => root.get key
  | .fileOrProgram =>
    if root.kindIn ["File"] then (root.get "program").get "body" else root.get "body"

/-- The kinds of nodes that a parser produces, with their rules. -/
structure Dialect where
  name : String
  rules : List (String × Rule)
  body : BodyPlace := .under "body"
  rootKind : String := "Program"

namespace Dialect

/-- The rule among `rules` for a kind. -/
def find (kind : String) : List (String × Rule) → Option Rule
  | [] => none
  | (name, rule) :: rest => if name = kind then some rule else find kind rest

/-- The rule for a kind. -/
def rule? (d : Dialect) (kind : String) : Option Rule :=
  find kind d.rules

/-- Whether a kind has a rule. -/
def defines (d : Dialect) (kind : String) : Bool :=
  (d.rule? kind).isSome

/-- The number of kinds that have a rule. -/
def size (d : Dialect) : Nat :=
  d.rules.length

/-- Replaces the rule for a kind where it stands, or appends it at the end. -/
def put (kind : String) (rule : Rule) : List (String × Rule) → List (String × Rule)
  | [] => [(kind, rule)]
  | (name, old) :: rest =>
    if name = kind then (kind, rule) :: rest else (name, old) :: put kind rule rest

/-- The dialect with more or other rules, under another name. -/
def extend (d : Dialect) (name : String) (overrides : List (String × Rule))
    (body : Option BodyPlace := none) : Dialect :=
  { d with
    name
    rules := overrides.foldl (fun rules (kind, rule) => put kind rule rules) d.rules
    body := body.getD d.body }

end Dialect

end CodeMetrics
