/-!
# `CodeMetrics.Document`: the documents that syntax trees are made of

A parser hands a syntax tree over as plain structured data: objects with named
fields, lists, texts, numbers, truth values and null. `Document` is that data.
Fields stand in the order of the text they were read from, because children are
visited in that order. Whole numbers are kept apart from binary fractions, since
the two are written differently.

Reading a field never fails: a missing field and a field that holds null both read
as `null` under `get`. Where the difference matters, `field?` tells them apart.
-/

set_option autoImplicit false

namespace CodeMetrics

/-- A piece of structured data. The fields of an object are kept in text order. -/
inductive Document where
  | null
  | bool (value : Bool)
  | int (value : Int)
  | float (value : Float)
  | string (text : String)
  | list (items : List Document)
  | object (fields : List (String × Document))
  deriving Inhabited

namespace Document

/-- The value stored under `key` in a list of fields, the first one if there are several. -/
def lookup (key : String) : List (String × Document) → Option Document
  | [] => none
  | (name, value) :: rest => if name = key then some value else lookup key rest

/-- The field `key` of an object. Everything that is not an object has no fields. -/
def field? (d : Document) (key : String) : Option Document :=
  match d with
  | .object fields => lookup key fields
  | _ => none

/-- The field `key`, where a missing field reads as null. -/
def get (d : Document) (key : String) : Document :=
  (d.field? key).getD .null

/-- Replaces the value under `key` where it stands, or appends the field at the end. -/
def assign (key : String) (value : Document) :
    List (String × Document) → List (String × Document)
  | [] => [(key, value)]
  | (name, old) :: rest =>
    if name = key then (key, value) :: rest else (name, old) :: assign key value rest

/-- The object with the field `key` set. Anything else is left as it is. -/
def set (d : Document) (key : String) (value : Document) : Document :=
  match d with
  | .object fields => .object (assign key value fields)
  | other => other

/-- Whether a value counts as set: null, false, zero and everything empty do not. -/
def truthy : Document → Bool
  | .null => false
  | .bool b => b
  | .int i => i != 0
  | .float x => !(x == 0.0)
  | .string s => !s.isEmpty
  | .list items => !items.isEmpty
  | .object fields => !fields.isEmpty

/-- Whether a value is null. A missing field reads as null, so it is absent as well. -/
def isNull : Document → Bool
  | .null => true
  | _ => false

/-- Whether a value is an object. -/
def isObject : Document → Bool
  | .object _ => true
  | _ => false

/-- The text of a string, nothing for any other value. -/
def text? : Document → Option String
  | .string s => some s
  | _ => none

/-- Whether a value is a string among `texts`. -/
def isOneOf (d : Document) (texts : List String) : Bool :=
  match d with
  | .string s => texts.contains s
  | _ => false

/-! ### Size

The number of documents inside a document, itself included. It bounds every
recursion that goes from an object to the value of one of its fields.
-/

mutual

/-- The number of documents in `d`, itself included. -/
def size : Document → Nat
  | .list items => 1 + sizeItems items
  | .object fields => 1 + sizeFields fields
  | _ => 1

/-- The sizes of the items of a list, added up. -/
def sizeItems : List Document → Nat
  | [] => 0
  | d :: rest => size d + sizeItems rest

/-- The sizes of the values of the fields, added up. -/
def sizeFields : List (String × Document) → Nat
  | [] => 0
  | (_, d) :: rest => size d + sizeFields rest

end

/-- A document contains at least itself. -/
theorem size_pos (d : Document) : 0 < d.size := by
  cases d <;> simp only [size] <;> omega

/-- A value found under a key is no larger than all fields together. -/
theorem size_le_sizeFields {key : String} {fields : List (String × Document)} {value : Document}
    (h : lookup key fields = some value) : value.size ≤ sizeFields fields := by
  induction fields with
  | nil => simp [lookup] at h
  | cons entry rest ih =>
    obtain ⟨name, d⟩ := entry
    simp only [lookup] at h
    simp only [sizeFields]
    split at h
    · cases h; omega
    · have := ih h; omega

/-- Whatever is read from an object that has a field is smaller than the object, and
that includes the null read for a missing field. -/
theorem size_get_lt {d value : Document} {other : String} (h : d.field? other = some value)
    (key : String) : (d.get key).size < d.size := by
  cases d with
  | object fields =>
    simp only [field?] at h
    simp only [get, field?, size]
    cases found : lookup key fields with
    | none =>
      have := size_le_sizeFields h
      have := size_pos value
      simp only [Option.getD_none, size]
      omega
    | some inner =>
      have := size_le_sizeFields found
      simp only [Option.getD_some]
      omega
  | _ => simp [field?] at h

end Document

end CodeMetrics
