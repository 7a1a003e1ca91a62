import CodeMetrics.Document
import CodeMetrics.Number

/-!
# `CodeMetrics.Document.Number`: values as numbers

A whole number, a double and a truth value can each be calculated with. True counts as one
and false as zero.

Where values are told apart, as keys are, numbers of one value are the same key whatever
their sort.
-/

set_option autoImplicit false

namespace CodeMetrics

/-- A number as a document. -/
def Number.toDocument : Number → Document
  | .int n => .int n
  | .float x => .float x

namespace Document

/-- The number that a value stands for. -/
def number? : Document → Option Number
  | .int n => some (.int n)
  | .float x => some (.float x)
  | .bool b => some (.int (if b then 1 else 0))
  | _ => none

/-- Whether two values are the same key. Lists and objects are no keys. -/
def sameKey (a b : Document) : Bool :=
  match a.number?, b.number? with
  | some m, some n => m.atMost n && n.atMost m
  | none, none =>
    match a, b with
    | .string s, .string t => s == t
    | .null, .null => true
    | _, _ => false
  | _, _ => false

/-- Texts are the same key if they are equal. -/
theorem sameKey_string (s t : String) : sameKey (.string s) (.string t) = (s == t) := rfl

end Document

/-- A value used as a key. -/
structure Key where
  value : Document

instance : BEq Key := ⟨fun a b => a.value.sameKey b.value⟩

end CodeMetrics
