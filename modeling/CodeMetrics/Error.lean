import CodeMetrics.Node

/-!
# `CodeMetrics.Error`: why an analysis ends without a report

An error carries its cause. Its `Account` is how it is told: what went wrong, the facts in
their order, and the word and the lines under which it is recorded in a report.
-/

set_option autoImplicit false

namespace CodeMetrics

/-- Closing a scope that is not open. -/
inductive ScopeError where
  | noOpenFunction
  | noOpenClass
  deriving DecidableEq

/-- Why an analysis ends without a report. -/
inductive Error where
  /-- A problem described by the caller. -/
  | general (message : String) (details : List (String × Document))
  /-- The root of the tree is not a usable module. -/
  | invalidInput (reason : String) (received : Option String)
  /-- A node has a kind that the dialect does not define. -/
  | unsupportedSyntax (kind dialect : String) (first last : Option Int)
  /-- A setting has an unusable value. -/
  | configuration (field reason : String) (allowed : List String)
  /-- An argument has an unusable value. -/
  | invalidValue (message : String)
  /-- A scope was closed that is not open. -/
  | scope (cause : ScopeError)
  /-- The tree is badly shaped. -/
  | fault (cause : Fault)

namespace ScopeError

/-- What went wrong. -/
def message : ScopeError → String
  | .noOpenFunction => "Cannot pop the module scope"
  | .noOpenClass => "No open class scope"

end ScopeError

namespace Fault

/-- The greatest length of a value that is shown in a message. -/
def shownLength : Nat := 200

/-- What went wrong, for the faults that have a text. -/
def message : Fault → String
  | .notAWholeNumber text =>
    "invalid literal for int() with base 10: " ++
      String.ofList ((Text.shown text).toList.take shownLength)
  | .tooManyDigits digits =>
    "Exceeds the limit (" ++ Decimal.natText Text.maxDigits ++
      " digits) for integer string conversion: value has " ++ Decimal.natText digits ++
      " digits; use sys.set_int_max_str_digits() to increase the limit"
  | .notARealNumber text => "could not convert string to float: " ++ Text.shown text
  | .arithmetic .notANumber => "cannot convert float NaN to integer"
  | _ => ""

end Fault

/-! ### How errors are told -/

/-- An error as it is told. The parts are carried as they were given, so a message or a line
can be any value. -/
structure Account where
  name : String
  message : Document
  details : List (String × Document) := []
  first : Document := .null
  last : Document := .null

namespace Account

/-- A problem described by the caller. -/
def general (message : Document) (details : List (String × Document)) : Account :=
  { name := "ComplexityAnalysisError", message, details }

/-- The root of the tree is not a usable module. What was received may be unknown. -/
def invalidInput (reason received : Document) : Account :=
  { name := "InvalidInputError"
    message := .string ("Invalid AST root: " ++ reason.display)
    details := ("reason", reason) :: if received.isNull then [] else [("received", received)] }

/-- A node has a kind that the dialect does not define. -/
def unsupportedSyntax (kind dialect first last : Document) : Account :=
  { name := "UnsupportedSyntaxError"
    message :=
      .string ("Unsupported syntax for " ++ dialect.display ++ " dialect: " ++ kind.display)
    details := [("node_type", kind), ("dialect", dialect), ("line", first)]
    first, last }

/-- A setting has an unusable value. -/
def configuration (field reason : Document) (allowed : List String) : Account :=
  { name := "ConfigurationError"
    message := .string ("Invalid setting '" ++ field.display ++ "': " ++ reason.display)
    details := [("field", field), ("reason", reason)] ++
      if allowed.isEmpty then [] else [("allowed", .string (", ".intercalate allowed))] }

/-- An argument has an unusable value. -/
def invalidValue (message : String) : Account :=
  { name := "ValueError", message := .string message }

/-- The message, followed by the facts in brackets if there are any. -/
def text (a : Account) : String :=
  match a.details with
  | [] => a.message.display
  | facts =>
    let told := facts.map fun fact => fact.1 ++ "=" ++ fact.2.display
    a.message.display ++ " (" ++ ", ".intercalate told ++ ")"

end Account

namespace Error

/-- A whole number that may be missing. -/
def optionalInt : Option Int → Document
  | some n => .int n
  | none => .null

/-- A text that may be missing. -/
def optionalText : Option String → Document
  | some s => .string s
  | none => .null

/-- How an error is told. -/
def account : Error → Account
  | .general message details => .general (.string message) details
  | .invalidInput reason received => .invalidInput (.string reason) (optionalText received)
  | .unsupportedSyntax kind dialect first last =>
    .unsupportedSyntax (.string kind) (.string dialect) (optionalInt first) (optionalInt last)
  | .configuration field reason allowed =>
    .configuration (.string field) (.string reason) allowed
  | .invalidValue message => .invalidValue message
  | .scope cause => { name := "RuntimeError", message := .string cause.message }
  | .fault cause => { name := "", message := .string cause.message }

/-- The word under which an error is recorded. -/
def name (e : Error) : String :=
  e.account.name

/-- The message, followed by the facts in brackets if there are any. -/
def text (e : Error) : String :=
  e.account.text

/-! ### The unusable roots -/

/-- A root without usable lines. -/
def noLines : Error :=
  .invalidInput "loc.start.line and loc.end.line must be numbers" none

/-- A root that is not an object. -/
def notAnObject (received : String) : Error :=
  .invalidInput "expected an AST object" (some received)

/-- A root without statements. -/
def missingBody : Error :=
  .invalidInput "missing body" none

/-- A root whose statements are not a list. -/
def bodyNotAList (received : String) : Error :=
  .invalidInput "body must be a list of statements" (some received)

end Error

/-! ### Recorded problems -/

/-- A problem that is recorded in a report and does not end the analysis. -/
structure Diagnostic where
  severity : Document
  message : Document
  first : Document := .null
  last : Document := .null
  name : Document := .string ""

/-- The record of an error. -/
def Account.record (a : Account) (severity : Document) : Diagnostic :=
  { severity, message := a.message, first := a.first, last := a.last, name := .string a.name }

/-- The record of an error. Only unsupported syntax has lines. -/
def Error.record (e : Error) (severity : String) : Diagnostic :=
  e.account.record (.string severity)

end CodeMetrics
