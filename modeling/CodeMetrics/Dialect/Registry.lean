import CodeMetrics.Dialect.Babel
import CodeMetrics.Text.LowerCase

/-!
# `CodeMetrics.Dialect.Registry`: the dialects that can be chosen

A registry holds dialects under names in lower case. Registering a dialect under a name
that is taken replaces the one that was there.
-/

set_option autoImplicit false

namespace CodeMetrics

/-- The dialects that can be chosen, in the order they were registered. -/
structure Registry where
  entries : List (String × Dialect)

namespace Registry

/-- The dialects that are there from the start. -/
def standard : Registry :=
  ⟨[("estree", Estree.dialect), ("babel", Babel.dialect)]⟩

/-- The dialect under a name, in any case. -/
def find? (r : Registry) (name : String) : Option Dialect :=
  (r.entries.find? fun entry => entry.1 == Text.lower name).map (·.2)

/-- Whether there is a dialect under a name. -/
def supports (r : Registry) (name : String) : Bool :=
  (r.find? name).isSome

/-- The names of the dialects. -/
def names (r : Registry) : List String :=
  r.entries.map (·.1)

/-- Puts a dialect under a name. -/
def register (r : Registry) (name : String) (d : Dialect) : Registry :=
  let small := Text.lower name
  if r.entries.any fun entry => entry.1 == small then
    ⟨r.entries.map fun entry => if entry.1 == small then (small, d) else entry⟩
  else ⟨r.entries ++ [(small, d)]⟩

/-- The dialect that the settings name. -/
def choose (r : Registry) (s : Settings) : Except Error Dialect :=
  match r.find? s.dialect with
  | some d => .ok d
  | none =>
    .error (.configuration "dialect" ("no syntax table for '" ++ s.dialect ++ "'") r.names)

end Registry

end CodeMetrics
