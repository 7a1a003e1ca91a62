import CodeMetrics.Document.Writer
import CodeMetrics.Number
import CodeMetrics.Text.WholeNumber

/-!
# `CodeMetrics.Fault`: reading badly shaped trees

A tree may hold anything under any key. Most misplaced values are passed over, but a few
places need a value of a certain shape. A `Fault` says what was asked of a value that
cannot give it, or why a calculation has no result.
-/

set_option autoImplicit false

namespace CodeMetrics

/-- What was asked of a value that cannot give it. -/
inductive Fault where
  /-- A field of a value that is neither an object nor empty. -/
  | fieldOfNonObject
  /-- The number of elements of a number or of true. -/
  | lengthOfScalar
  /-- The first element of an object. -/
  | elementOfObject
  /-- The first element of a number or of true. -/
  | elementOfScalar
  /-- A whole number from a text that holds none. -/
  | notAWholeNumber (text : String)
  /-- A whole number from a text that has too many digits. -/
  | tooManyDigits (digits : Nat)
  /-- A double from a text that holds none. -/
  | notARealNumber (text : String)
  /-- A whole number from a list or an object. -/
  | wholeNumberOfCollection
  /-- Keys from a value that cannot hold any. -/
  | unusableKeys
  /-- An argument of the wrong sort, or too few or too many of them. -/
  | unusableArgument
  /-- A calculation without a result. -/
  | arithmetic (cause : ArithmeticFault)

namespace Document

/-- Fails for anything that has no fields. -/
def requireObject (d : Document) : Except Fault Unit :=
  if d.isObject then .ok () else .error .fieldOfNonObject

/-- Whether a value is a list or an object. -/
def isCollection : Document → Bool
  | .list _ | .object _ => true
  | _ => false

/-- The value as a record to read fields from. Empty values are the empty record. -/
def record (d : Document) : Except Fault Document :=
  if d.truthy then
    match d with
    | .object _ => .ok d
    | _ => .error .fieldOfNonObject
  else .ok (.object [])

/-- The field `name` of the record stored under `key`. -/
def getIn (d : Document) (key name : String) : Except Fault (Option Document) := do
  return (← (d.get key).record).field? name

/-- The number of elements: items of a list, characters of a text, fields of an object.
Empty values have none. -/
def count (d : Document) : Except Fault Nat :=
  match d with
  | .list items => .ok items.length
  | .string s => .ok s.length
  | .object fields => .ok fields.length
  | .null | .bool false => .ok 0
  | .bool true => .error .lengthOfScalar
  | other => if other.truthy then .error .lengthOfScalar else .ok 0

/-- The first element of a value that has one: an item of a list, a character of a text.
A list or a text without elements reads as null. -/
def first (d : Document) : Except Fault Document :=
  match d with
  | .list items => .ok (items.headD .null)
  | .string s => .ok (match s.toList with
    | c :: _ => .string (String.singleton c)
    | [] => .null)
  | .object _ => .error .elementOfObject
  | _ => .error .elementOfScalar

end Document

end CodeMetrics
