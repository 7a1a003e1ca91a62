import CodeMetrics.Dialect

/-!
# `CodeMetrics.Dialect.Extension`: rules given as documents

A rule can be given as an object with the names of its parts. Numbers and tokens are then
the same at every node of the kind. A node that opens both a function and a class counts as
a class.
-/

set_option autoImplicit false

namespace CodeMetrics

/-- A rule from the names and values of its parts. -/
def Rule.ofDocument (d : Document) : Rule :=
  { lloc := .given (d.get "lloc")
    cyclomatic := .given (d.get "cyclomatic")
    operators := [.given (d.get "operators")]
    operands := [.given (d.get "operands")]
    skip := .given (d.get "ignore_keys")
    opens :=
      if (d.get "class_scope").truthy then some .classBody
      else if (d.get "new_scope").truthy then some .function
      else none
    scopeKeys := ((d.field? "scope_keys").map .given).getD (.fixed []) }

/-- The rules in an object from kinds to rules. -/
def Rule.allOfDocument : Document → List (String × Rule)
  | .object fields => fields.map fun (kind, d) => (kind, .ofDocument d)
  | _ => []

end CodeMetrics
