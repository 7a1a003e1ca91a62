import CodeMetrics.Document.Number
import CodeMetrics.Node.Literal
import CodeMetrics.Settings

/-!
# `CodeMetrics.Dependency`: modules that a module refers to

A dependency is found on a call of the loading function, on an import or export that names
a source, and on a call of the `Import` keyword. A path that is not written as a text is
recorded as dynamic. A resolver may replace any other path. Dependencies are recorded in
the order they are met and reported in the order of their lines, those of one line in the
order they were met.
-/

set_option autoImplicit false

namespace CodeMetrics

/-- A reference to another module. In a tree, lines are whole numbers. -/
structure Dependency (κ : Type) where
  line : κ
  path : Document
  type : String

namespace Dependency

/-- The path of a dependency that is only known when the program runs. -/
def dynamicPath : String := "* dynamic dependency *"

/-- The type of dependencies found on calls of the loading function. -/
def commonjsType : String := "cjs"

/-- The type of dependencies found on imports and exports. -/
def esmType : String := "esm"

/-- The dependency of `node` on what `source` names. -/
def ofSource (node source : Document) (type : String) :
    Except Fault (Dependency Int) := do
  let path ← source.stringValue
  let lines ← node.lines?
  return {
    line := (lines.map Lines.first).getD 0
    path := path.getD (.string dynamicPath)
    type }

/-- The dependency on a call of the loading function with one argument. -/
def commonjs (s : Settings) (node : Document) : Except Fault (Option (Dependency Int)) := do
  if !s.on .commonjs then return none
  node.requireObject
  let callee := node.get "callee"
  if callee.kindIn ["Identifier"] && (callee.get "name").isOneOf [s.requireName] then
    let arguments := node.get "arguments"
    if (← arguments.count) = 1 then
      return some (← ofSource node (← arguments.first) commonjsType)
    else return none
  else return none

/-- The dependency on an import or export that names a source. -/
def esm (node : Document) : Except Fault (Option (Dependency Int)) := do
  node.requireObject
  let source := node.get "source"
  if source.isNull then return none
  return some (← ofSource node source esmType)

/-- The dependency on a call of the `Import` keyword. -/
def dynamicImport (node : Document) : Except Fault (Option (Dependency Int)) := do
  node.requireObject
  let arguments := node.get "arguments"
  if (node.get "callee").kindIn ["Import"] && arguments.truthy then
    return some (← ofSource node (← arguments.first) esmType)
  else return none

/-- The dependency on a call of either sort. -/
def ofCall (s : Settings) (node : Document) : Except Fault (Option (Dependency Int)) := do
  match ← commonjs s node with
  | some d => return some d
  | none => dynamicImport node

/-- Lets the resolver replace the path. The dynamic path is never resolved, and a result
that is not a text is dropped. -/
def resolved {κ : Type} (s : Settings) (d : Dependency κ) : Dependency κ :=
  match s.resolver with
  | none => d
  | some r =>
    if d.path.isOneOf [dynamicPath] then d
    else
      match r.resolve d.path with
      | .string path => { d with path := .string path }
      | _ => d

/-- Applies a function to the line. -/
def map {κ μ : Type} (f : κ → μ) (d : Dependency κ) : Dependency μ :=
  { line := f d.line, path := d.path, type := d.type }

/-- The dependencies in the order `le` of their lines. -/
def orderedBy {κ : Type} (le : κ → κ → Bool) (ds : List (Dependency κ)) :
    List (Dependency κ) :=
  ds.mergeSort fun a b => le a.line b.line

/-- The dependencies in the order of their lines. -/
def inLineOrder (ds : List (Dependency Int)) : List (Dependency Int) :=
  orderedBy (fun a b => decide (a ≤ b)) ds

/-- The dependencies in the order of their lines, where lines may be any values. Numbers can
be ordered, and so can texts. A single dependency needs no order. -/
def inGivenOrder (ds : List (Dependency Document)) : Except Fault (List (Dependency Document)) :=
  if ds.length < 2 then .ok ds
  else if ds.all fun d => d.line.number?.isSome then
    .ok (orderedBy (fun a b => (a.number?.getD 0).atMost (b.number?.getD 0)) ds)
  else if ds.all fun d => d.line.text?.isSome then
    .ok (orderedBy (fun a b => decide (a.text?.getD "" ≤ b.text?.getD "")) ds)
  else .error .unusableArgument

end Dependency

end CodeMetrics
