import CodeMetrics.Dialect.Estree

/-!
# `CodeMetrics.Dialect.Babel`: the rules of the Babel dialect

Babel trees are ESTree trees with literals, properties, methods and private names of their
own kinds, and with a file around the program.
-/

set_option autoImplicit false

namespace CodeMetrics.Babel

open Condition (truthy present)
open Estree (isStatement isObjectEntry isAccessor functionTokens callToken memberToken operatorRule)

/-- A rule for a method, which stands for a key and a function at once. -/
def methodRule (lloc : Count) (first : List Token) : Rule :=
  { lloc
    operators := first ++ functionTokens "function" ++ [.choose isAccessor (.field "kind") .nothing]
    opens := some .function
    scopeKeys := .fixed ["key", "params"]
    naming := some .key }

/-- The mark of a member of the class itself. -/
def staticToken : Token := .when (truthy "static") "static"

/-- A rule for a field of a class. -/
def classFieldRule : Rule :=
  { lloc := .fixed 1, operators := [staticToken, .when (present "value") "="] }

/-- A rule for a literal that is spelled by its value. -/
def literalRule : Rule := { operands := [.literal "value"] }

/-- The rules that replace or join those of ESTree. -/
def overrides : List (String × Rule) :=
  [("BigIntLiteral", { operands := [.composed [.shown "value", .text "n"]] }),
   ("BooleanLiteral",
    { operands := [.choose (truthy "value") (.text "true") (.text "false")] }),
   ("ClassMethod", methodRule (.fixed 1) [staticToken]),
   ("ClassPrivateMethod", methodRule (.fixed 1) [staticToken]),
   ("ClassPrivateProperty", classFieldRule),
   ("ClassProperty", classFieldRule),
   ("Directive", { lloc := .fixed 1 }),
   ("DirectiveLiteral", literalRule),
   ("ExportDefaultSpecifier", {}),
   ("ExportNamespaceSpecifier", operatorRule "*"),
   ("File", {}),
   ("Import", operatorRule "import"),
   ("InterpreterDirective", {}),
   ("NullLiteral", { operands := [.text "null"] }),
   ("NumericLiteral", literalRule),
   ("ObjectMethod", methodRule (.choose isObjectEntry 2 1) []),
   ("ObjectProperty",
    { lloc := .choose isObjectEntry 1 0
      operators := [.choose (truthy "shorthand") .nothing (.text ":")]
      skip := .when (truthy "shorthand") ["key"] }),
   ("OptionalCallExpression",
    { lloc := .choose isStatement 0 1
      operators := [callToken]
      dependency := some .call }),
   ("OptionalMemberExpression", { operators := [memberToken] }),
   ("PrivateName",
    { operands := [.composed [.text "#", .inner "id" "name"]]
      skip := .when .always ["id"] }),
   ("RegExpLiteral",
    { operands :=
        [.composed [.text "/", .shownOrNothing "pattern", .text "/", .shownOrNothing "flags"]] }),
   ("RestProperty", operatorRule "..."),
   ("SpreadProperty", operatorRule "..."),
   ("StringLiteral", literalRule)]

/-- The Babel dialect. -/
def dialect : Dialect :=
  Estree.dialect.extend "babel" overrides (some .fileOrProgram)

end CodeMetrics.Babel
