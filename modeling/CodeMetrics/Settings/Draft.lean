import CodeMetrics.Settings
import CodeMetrics.Text.Blank
import CodeMetrics.Text.LowerCase

/-!
# `CodeMetrics.Settings.Draft`: settings before they are checked

A draft holds any value for every setting. Assignments change it one setting at a time, and
`Draft.check` makes settings of it: it looks at the dialect first, then at the name of the
loading function, then at the resolver, and the first that is not usable decides the error.
-/

set_option autoImplicit false

namespace CodeMetrics

/-- What may be given as resolver: a resolver, or a value that is none. -/
inductive ResolverChoice where
  | value (d : Document)
  | resolver (r : Resolver)

/-- The effect of an option on one setting. -/
inductive Assignment where
  | flag (f : Flag) (value : Document)
  | requireName (value : Document)
  | dialect (value : Document)
  | resolver (choice : ResolverChoice)

/-- Settings before they are checked. -/
structure Draft where
  flag : Flag → Document
  requireName : Document
  dialect : Document
  resolver : ResolverChoice

namespace Draft

/-- The defaults. -/
def default : Draft :=
  let s : Settings := {}
  { flag := s.value
    requireName := .string s.requireName
    dialect := .string s.dialect
    resolver := .value .null }

/-- Carries out one effect. -/
def apply (d : Draft) : Assignment → Draft
  | .flag f value => { d with flag := fun g => if g = f then value else d.flag g }
  | .requireName value => { d with requireName := value }
  | .dialect value => { d with dialect := value }
  | .resolver choice => { d with resolver := choice }

/-- The dialect in lower case, if it is a known one. -/
def checkDialect (d : Document) : Except Error String :=
  let unknown (shown : String) : Error :=
    .configuration "dialect" ("unknown dialect '" ++ shown ++ "'") Settings.dialects
  match d with
  | .string s =>
    let small := Text.lower s
    if Settings.dialects.contains small then .ok small else .error (unknown small)
  | other => .error (unknown other.display)

/-- The name of the loading function, if it is a text that is not blank. -/
def checkRequireName (d : Document) : Except Error String :=
  let blank : Error := .configuration "require_name" "must be a non-empty string" []
  match d with
  | .string s => if Text.isBlankText s then .error blank else .ok s
  | _ => .error blank

/-- The resolver, if one is given. -/
def checkResolver : ResolverChoice → Except Error (Option Resolver)
  | .resolver r => .ok (some r)
  | .value .null => .ok none
  | .value _ => .error (.configuration "dependency_resolver" "must be callable" [])

/-- Checks the settings, the dialect first. -/
def check (d : Draft) : Except Error Settings := do
  let dialect ← checkDialect d.dialect
  let requireName ← checkRequireName d.requireName
  let resolver ← checkResolver d.resolver
  return {
    logicalor := d.flag .logicalor
    switchcase := d.flag .switchcase
    forin := d.flag .forin
    trycatch := d.flag .trycatch
    newmi := d.flag .newmi
    commonjs := d.flag .commonjs
    esmHalstead := d.flag .esmHalstead
    esmLloc := d.flag .esmLloc
    templateHalstead := d.flag .templateHalstead
    strict := d.flag .strict
    requireName, dialect, resolver }

end Draft

end CodeMetrics
