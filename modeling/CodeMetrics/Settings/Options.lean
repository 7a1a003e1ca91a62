import CodeMetrics.Settings.Draft

/-!
# `CodeMetrics.Settings.Options`: settings from options

Options are a list of entries. An entry targets a setting by its name, by an alias, or
through a key inside one of two groups. Entries apply in order, so the last one that
targets a setting decides. An entry that targets no setting is passed over.

`Options.settings` applies the entries to the defaults and then checks the result.
-/

set_option autoImplicit false

namespace CodeMetrics

/-- The two spellings of the key under which a resolver can be given. -/
inductive ResolverKey where
  | snakeCase
  | camelCase

/-- One option. -/
inductive OptionEntry where
  | value (key : String) (value : Document)
  | resolver (key : ResolverKey) (r : Resolver)

/-- The key under which settings name their resolver. -/
def resolverKey : String := "dependencyResolver"

/-- The text of the key. -/
def ResolverKey.text : ResolverKey → String
  | .snakeCase => "dependency_resolver"
  | .camelCase => resolverKey

namespace OptionEntry

/-- The key of an option. -/
def key : OptionEntry → String
  | .value key _ => key
  | .resolver key _ => key.text

end OptionEntry

/-- Options in the order they are given. -/
abbrev Options := List OptionEntry

namespace Assignment

/-- The setting that is called `name`, set to `value`. -/
def ofName? (name : String) (value : Document) : Option Assignment :=
  match name with
  | "logicalor" => some (.flag .logicalor value)
  | "switchcase" => some (.flag .switchcase value)
  | "forin" => some (.flag .forin value)
  | "trycatch" => some (.flag .trycatch value)
  | "newmi" => some (.flag .newmi value)
  | "commonjs" => some (.flag .commonjs value)
  | "esm_import_export_halstead" => some (.flag .esmHalstead value)
  | "esm_import_export_lloc" => some (.flag .esmLloc value)
  | "template_expression_halstead" => some (.flag .templateHalstead value)
  | "strict" => some (.flag .strict value)
  | "require_name" | "requireName" => some (.requireName value)
  | "dialect" => some (.dialect value)
  | "dependency_resolver" | "dependencyResolver" => some (.resolver (.value value))
  | _ => none

/-- The flags of a group, each with its key inside the group. -/
def groupFlags : String → List (String × Flag)
  | "esmImportExport" => [("halstead", .esmHalstead), ("lloc", .esmLloc)]
  | "templateExpression" => [("halstead", .templateHalstead)]
  | _ => []

/-- The settings given inside a group. -/
def ofGroup (flags : List (String × Flag)) (group : Document) : List Assignment :=
  flags.filterMap fun (key, f) => (group.field? key).map (.flag f)

/-- All effects of one option. A group holds nothing unless its value is an object. -/
def ofEntry : OptionEntry → List Assignment
  | .resolver _ r => [.resolver (.resolver r)]
  | .value key value =>
    match groupFlags key, value with
    | [], value => (ofName? key value).toList
    | flags, .object fields => ofGroup flags (.object fields)
    | _, _ => []

end Assignment

/-- The word for the type of a value. -/
def Document.typeName : Document → String
  | .null => "null"
  | .bool _ => "bool"
  | .int _ => "int"
  | .float _ => "float"
  | .string _ => "str"
  | .list _ => "list"
  | .object _ => "dict"

namespace Options

/-- Options from a document. Null stands for no options, anything else that is not an
object is refused. -/
def ofDocument : Document → Except Error Options
  | .null => .ok []
  | .object fields => .ok (fields.map fun (key, value) => .value key value)
  | other => .error (.configuration "options" ("expected a mapping, got " ++ other.typeName) [])

/-- Gives a resolver, in the place of an option under the same key or at the end. -/
def withResolver (r : Resolver) : Options → Options
  | [] => [.resolver .camelCase r]
  | entry :: rest =>
    if entry.key = resolverKey then .resolver .camelCase r :: rest else entry :: withResolver r rest

/-- The settings that the options describe. -/
def settings (o : Options) : Except Error Settings :=
  ((o.flatMap Assignment.ofEntry).foldl Draft.apply Draft.default).check

end Options

namespace Settings

/-- The options that describe these settings. -/
def toOptions (s : Settings) : Options :=
  [.value "commonjs" s.commonjs,
   match s.resolver with
   | some r => .resolver .camelCase r
   | none => .value resolverKey .null,
   .value "dialect" (.string s.dialect),
   .value "esmImportExport" (.object [("halstead", s.esmHalstead), ("lloc", s.esmLloc)]),
   .value "forin" s.forin, .value "logicalor" s.logicalor, .value "newmi" s.newmi,
   .value "requireName" (.string s.requireName), .value "strict" s.strict,
   .value "switchcase" s.switchcase,
   .value "templateExpression" (.object [("halstead", s.templateHalstead)]),
   .value "trycatch" s.trycatch]

end Settings

end CodeMetrics
