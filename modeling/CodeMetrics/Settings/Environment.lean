import CodeMetrics.Settings.Options

/-!
# `CodeMetrics.Settings.Environment`: settings from named variables

An environment gives texts under names. Each flag, the name of the loading function and the
dialect have a variable, and the result is checked like settings from options.
-/

set_option autoImplicit false

namespace CodeMetrics

namespace Settings

/-- The words that switch a flag on. -/
def onWords : List String := ["1", "true", "yes", "on"]

/-- The name of the variable that sets a flag. -/
def flagVariable : Flag → String
  | .logicalor => "LOGICALOR"
  | .switchcase => "SWITCHCASE"
  | .forin => "FORIN"
  | .trycatch => "TRYCATCH"
  | .newmi => "NEWMI"
  | .commonjs => "COMMONJS"
  | .esmHalstead => "ESM_IMPORT_EXPORT_HALSTEAD"
  | .esmLloc => "ESM_IMPORT_EXPORT_LLOC"
  | .templateHalstead => "TEMPLATE_EXPRESSION_HALSTEAD"
  | .strict => "STRICT"

/-- The settings that an environment describes. A flag that is set is on or off by its
word, whatever its default. -/
def ofEnvironment (lookup : String → Option String) : Except Error Settings :=
  let draft := Draft.default
  Draft.check
    { flag := fun f =>
        match lookup (flagVariable f) with
        | some word => .bool (onWords.contains (Text.lower (Text.strip word)))
        | none => draft.flag f
      requireName := ((lookup "REQUIRE_NAME").map .string).getD draft.requireName
      dialect := ((lookup "DIALECT").map .string).getD draft.dialect
      resolver := draft.resolver }

end Settings

end CodeMetrics
