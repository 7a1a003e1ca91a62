import CodeMetrics.Error

/-!
# `CodeMetrics.Settings`: what an analysis counts

A setting is read as on or off but keeps the value it was given, whatever it is, because a
report repeats the settings it was made with. `Settings.on` is the only way a flag reaches
the analysis. Two settings are checked when they are made: the dialect is one of the known
ones, and the name of the loading function is not blank.

`cacheKey` is the text that tells settings apart in a cache of reports.
-/

set_option autoImplicit false

namespace CodeMetrics

/-- The settings that are read as on or off. -/
inductive Flag where
  /-- Alternatives joined by an or add a path. -/
  | logicalor
  /-- Cases of a switch add a path. -/
  | switchcase
  /-- Loops over keys or items add a path. -/
  | forin
  /-- Handlers of exceptions add a path. -/
  | trycatch
  /-- The maintainability index runs from 0 to 100. -/
  | newmi
  /-- Calls of the loading function are dependencies. -/
  | commonjs
  /-- The tokens of imports and exports are counted. -/
  | esmHalstead
  /-- Imports and exports are logical lines. -/
  | esmLloc
  /-- The tokens of templates are counted. -/
  | templateHalstead
  /-- Unknown syntax ends the analysis. -/
  | strict
  deriving DecidableEq, Repr

/-- A function that turns the path of a dependency into another value. The name tells
resolvers apart. -/
structure Resolver where
  name : String
  resolve : Document → Document

/-- What an analysis counts, and how. -/
structure Settings where
  logicalor : Document := .bool true
  switchcase : Document := .bool true
  forin : Document := .bool false
  trycatch : Document := .bool false
  newmi : Document := .bool false
  commonjs : Document := .bool false
  requireName : String := "require"
  esmHalstead : Document := .bool false
  esmLloc : Document := .bool false
  templateHalstead : Document := .bool true
  dialect : String := "estree"
  strict : Document := .bool false
  resolver : Option Resolver := none

namespace Settings

/-- The value that a flag was given. -/
def value (s : Settings) : Flag → Document
  | .logicalor => s.logicalor
  | .switchcase => s.switchcase
  | .forin => s.forin
  | .trycatch => s.trycatch
  | .newmi => s.newmi
  | .commonjs => s.commonjs
  | .esmHalstead => s.esmHalstead
  | .esmLloc => s.esmLloc
  | .templateHalstead => s.templateHalstead
  | .strict => s.strict

/-- Whether a flag is on. -/
def on (s : Settings) (f : Flag) : Bool :=
  (s.value f).truthy

/-- The dialects that a setting can name. -/
def dialects : List String := ["estree", "babel"]

/-- The settings in the order of their names, each as its name and its value. -/
def parts (s : Settings) : List (String × Document) :=
  [("commonjs", s.commonjs), ("dialect", .string s.dialect),
   ("esm_import_export_halstead", s.esmHalstead), ("esm_import_export_lloc", s.esmLloc),
   ("forin", s.forin), ("logicalor", s.logicalor), ("newmi", s.newmi),
   ("require_name", .string s.requireName), ("strict", s.strict),
   ("switchcase", s.switchcase), ("template_expression_halstead", s.templateHalstead),
   ("trycatch", s.trycatch)]

/-- The text that tells settings apart in a cache. -/
def cacheKey (s : Settings) : String :=
  let named := s.parts.map fun part => part.1 ++ "=" ++ part.2.display
  let resolved := (s.resolver.map fun r => "resolver=" ++ r.name).toList
  ";".intercalate (named ++ resolved)

/-- The settings as a report repeats them. -/
def echo (s : Settings) : Document :=
  .object
    [("commonjs", s.commonjs), ("dialect", .string s.dialect),
     ("esmImportExport", .object [("halstead", s.esmHalstead), ("lloc", s.esmLloc)]),
     ("forin", s.forin), ("logicalor", s.logicalor), ("newmi", s.newmi),
     ("requireName", .string s.requireName), ("strict", s.strict),
     ("switchcase", s.switchcase),
     ("templateExpression", .object [("halstead", s.templateHalstead)]),
     ("trycatch", s.trycatch)]

end Settings

end CodeMetrics
