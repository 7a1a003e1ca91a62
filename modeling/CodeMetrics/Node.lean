import CodeMetrics.Fault

/-!
# `CodeMetrics.Node`: nodes of a syntax tree

A node is an object whose field `type` is a text. `kind?` reads it, and everything else
about a node starts there. A node says which lines it spans in its field `loc`, and its
children are the nodes found directly under its keys or one list below them.

A child is known by the place where it hangs: the key, and whether it stands under the
key itself. Two equal nodes at different places are different children.
-/

set_option autoImplicit false

namespace CodeMetrics

/-- The lines from `first` to `last`, both included. In a tree they are whole numbers. -/
structure Lines (κ : Type) where
  first : κ
  last : κ
  deriving DecidableEq, Inhabited

namespace Lines

/-- The number of lines. -/
def count (l : Lines Int) : Int :=
  l.last - l.first + 1

/-- The number of lines, if it can be formed. -/
def extent (l : Lines Number) : Except ArithmeticFault Number := do
  (← l.last.minus l.first).plus 1

/-- Applies a function to both ends. -/
def map {κ μ : Type} (f : κ → μ) (l : Lines κ) : Lines μ :=
  ⟨f l.first, f l.last⟩

end Lines

namespace Document

/-- The kind of a node. Anything that is not a node has none. -/
def kind? (d : Document) : Option String :=
  match d.field? "type" with
  | some (.string kind) => some kind
  | _ => none

/-- Whether a value is a node. -/
def isNode (d : Document) : Bool :=
  d.kind?.isSome

/-- Whether a value is a node of one of the given kinds. -/
def kindIn (d : Document) (kinds : List String) : Bool :=
  match d.kind? with
  | some kind => kinds.contains kind
  | none => false

/-- A line number. Fractions are cut off, truth values are not numbers. -/
def line? : Document → Option Int
  | .int n => some n
  | .float x => some (Binary.ofFloat x).truncate
  | _ => none

/-- The lines of a node, if its location gives both as numbers. Both ends are read before
either is looked at, so a location of the wrong shape is a fault even if the other end is
unusable. -/
def lines? (d : Document) : Except Fault (Option (Lines Int)) :=
  match d.get "loc" with
  | .object loc => do
    let start ← (Document.object loc).getIn "start" "line"
    let stop ← (Document.object loc).getIn "end" "line"
    return do return ⟨← line? (start.getD .null), ← line? (stop.getD .null)⟩
  | _ => .ok none

end Document

/-! ### Places and children -/

/-- A node together with the place where it hangs: its parent, null at the root, and the
key of the parent that holds the node itself, if there is one. -/
structure Placed where
  node : Document
  parent : Document := .null
  slot : Option String := none

namespace Document

/-- The whole numbers that are the same wherever they stand. -/
def isSmall (n : Int) : Bool :=
  -5 ≤ n && n ≤ 256

/-- Whether two values are the same wherever they stand. That is so for null and the truth
values, for small whole numbers, and for texts of at most one character below U+0100. All
other values are told apart by their places. -/
def sameAnywhere : Document → Document → Bool
  | .null, .null => true
  | .bool a, .bool b => a == b
  | .int a, .int b => a == b && isSmall a
  | .string a, .string b => a == b && a.length ≤ 1 && a.toList.all fun c => c.toNat < 0x100
  | _, _ => false

end Document

namespace Placed

/-- Whether the node is what its parent holds under `key`. -/
def isUnder (p : Placed) (key : String) : Bool :=
  p.slot == some key || (p.parent.get key).sameAnywhere p.node

end Placed

/-- The keys that hold no children in any node. -/
def nonChildKeys : List String :=
  ["type", "loc", "range", "start", "end", "leadingComments", "trailingComments",
   "innerComments", "comments", "tokens", "extra", "parent"]

/-- A child node, the key it hangs under, and whether it stands under the key itself and
not in a list. -/
structure Child where
  key : String
  direct : Bool
  node : Document

/-- A child at its place under `parent`. -/
def Child.placed (parent : Document) (c : Child) : Placed :=
  { node := c.node, parent, slot := if c.direct then some c.key else none }

namespace Document

/-- The child nodes stored under one key. -/
def childrenAt (key : String) (value : Document) : List Child :=
  match value with
  | .object _ => if value.isNode then [⟨key, true, value⟩] else []
  | .list items => (items.filter isNode).map fun item => ⟨key, false, item⟩
  | _ => []

/-- The children under the keys that `keep` selects, in text order. -/
def childrenIn (keep : String → Bool) : List (String × Document) → List Child
  | [] => []
  | (key, value) :: rest =>
    if keep key then childrenAt key value ++ childrenIn keep rest else childrenIn keep rest

/-- The children of a node except those under the keys in `ignored`, in text order. -/
def children (d : Document) (ignored : List String) : List Child :=
  match d with
  | .object fields =>
    childrenIn (fun key => !nonChildKeys.contains key && !ignored.contains key) fields
  | _ => []

/-- The sizes of some children, added up. -/
def sizeChildren : List Child → Nat
  | [] => 0
  | c :: rest => c.node.size + sizeChildren rest

/-- The sizes of two groups of children add up. -/
theorem sizeChildren_append (a b : List Child) :
    sizeChildren (a ++ b) = sizeChildren a + sizeChildren b := by
  induction a with
  | nil => simp [sizeChildren]
  | cons c rest ih => simp only [List.cons_append, sizeChildren, ih]; omega

/-- The children under one key are no larger than its value. -/
theorem sizeChildren_childrenAt_le (key : String) (value : Document) :
    sizeChildren (childrenAt key value) ≤ value.size := by
  cases value with
  | object fields =>
    simp only [childrenAt]
    split <;> simp [sizeChildren]
  | list items =>
    simp only [childrenAt, size]
    have items_le : sizeChildren ((items.filter isNode).map fun item => ⟨key, false, item⟩) ≤
        sizeItems items := by
      induction items with
      | nil => simp [sizeChildren, sizeItems]
      | cons d rest ih =>
        simp only [List.filter_cons, sizeItems]
        split
        · simp only [List.map_cons, sizeChildren]; omega
        · omega
    omega
  | _ => simp [childrenAt, sizeChildren]

/-- All children of a node together are smaller than the node. -/
theorem sizeChildren_children_lt (d : Document) (ignored : List String) :
    sizeChildren (d.children ignored) < d.size := by
  cases d with
  | object fields =>
    simp only [children, size]
    generalize (fun key => !nonChildKeys.contains key && !ignored.contains key) = keep
    suffices sizeChildren (childrenIn keep fields) ≤ sizeFields fields by omega
    induction fields with
    | nil => simp [childrenIn, sizeChildren]
    | cons entry rest ih =>
      obtain ⟨key, value⟩ := entry
      have here := sizeChildren_childrenAt_le key value
      simp only [childrenIn, sizeFields]
      split
      · rw [sizeChildren_append]; omega
      · omega
  | list items => simpa [children, sizeChildren] using size_pos (.list items)
  | _ => simp [children, sizeChildren, size]

end Document

end CodeMetrics
