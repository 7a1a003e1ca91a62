import CodeMetrics.Proofs.Traversal.Recursion
import Mathlib.Algebra.Group.Hom.Defs

/-!
# `CodeMetrics.Proofs.Traversal.Yield`: what a tree yields, wherever it stands

A traversal adds to scopes that are already open, and gives numbers to the scopes that it
opens. How a tree is counted is the same wherever it stands, though. `Yield` is what the
traversal of a tree brings, said without the scopes around it: what goes to the module, to the
function around the tree and to the class around it, and the functions and classes inside,
numbered from zero.

Yields are put together in three ways. One tree after another gives `y ++ z`, where the numbers
in `z` move up by the number of functions in `y`. A function around a tree takes what the
tree has for the function around it (`Yield.inFunction`), and a class what it has for the class
around it (`Yield.inClass`). `Dialect.harvest` goes down a tree and puts the yield together.
It has no scopes to look at, so facts about trees can be proved on yields and carried over to
traversals, see `CodeMetrics.Proofs.Traversal.Extension`.
-/

set_option autoImplicit false

namespace CodeMetrics

/-! ### Gains -/

/-- What some nodes add to a scope. Parameters are those of functions that are opened inside. -/
@[ext] structure Gain where
  lines : Int := 0
  paths : Int := 0
  params : Int := 0
  operators : List String := []
  operands : List String := []

namespace Gain

instance : Zero Gain := ⟨{}⟩

/-- One gain after another. -/
instance : Add Gain :=
  ⟨fun g h =>
    { lines := g.lines + h.lines
      paths := g.paths + h.paths
      params := g.params + h.params
      operators := g.operators ++ h.operators
      operands := g.operands ++ h.operands }⟩

@[simp] theorem lines_zero : (0 : Gain).lines = 0 := rfl
@[simp] theorem paths_zero : (0 : Gain).paths = 0 := rfl
@[simp] theorem params_zero : (0 : Gain).params = 0 := rfl
@[simp] theorem operators_zero : (0 : Gain).operators = [] := rfl
@[simp] theorem operands_zero : (0 : Gain).operands = [] := rfl

@[simp] theorem lines_add (g h : Gain) : (g + h).lines = g.lines + h.lines := rfl
@[simp] theorem paths_add (g h : Gain) : (g + h).paths = g.paths + h.paths := rfl
@[simp] theorem params_add (g h : Gain) : (g + h).params = g.params + h.params := rfl
@[simp] theorem operators_add (g h : Gain) : (g + h).operators = g.operators ++ h.operators := rfl
@[simp] theorem operands_add (g h : Gain) : (g + h).operands = g.operands ++ h.operands := rfl

instance : AddMonoid Gain where
  add_assoc a b c := by ext <;> simp [Int.add_assoc]
  zero_add a := by ext <;> simp
  add_zero a := by ext <;> simp
  nsmul := nsmulRec

/-- What a node adds to the scopes around it. -/
def ofContribution (c : Contribution) : Gain :=
  { lines := c.lloc, paths := c.cyclomatic, operators := c.operators, operands := c.operands }

/-- What a function with so many parameters brings to the module and to the class around it. -/
def ofFunction (params : Nat) : Gain :=
  { paths := 1, params }

end Gain

/-! ### Functions and classes inside a tree -/

/-- A function inside a tree, with what it gains. Its parent is the number of the function
around it, none for the one around the tree. A function without a name of its own has none
here. -/
@[ext] structure FunctionYield (G : Type) where
  name : Option Document
  lines : Lines Int
  params : List Document
  parent : Option Nat := none
  gain : G

/-- A class inside a tree, with what it gains. Its methods are numbers of functions, and its
depth is the number of functions inside the tree that it stands in. -/
@[ext] structure ClassYield (G : Type) where
  name : Option Document
  superName : Option Document
  lines : Lines Int
  parent : Option Nat := none
  depth : Nat := 0
  methods : List Nat
  gain : G

section

variable {G H : Type}

/-- The function after `n` others. -/
def FunctionYield.shift (n : Nat) (f : FunctionYield G) : FunctionYield G :=
  { f with parent := f.parent.map (· + n) }

/-- The function inside of another one, which is then number zero. -/
def FunctionYield.nested (f : FunctionYield G) : FunctionYield G :=
  { f with parent := some (f.parent.elim 0 (· + 1)) }

/-- The class after `n` functions. -/
def ClassYield.shift (n : Nat) (c : ClassYield G) : ClassYield G :=
  { c with parent := c.parent.map (· + n), methods := c.methods.map (· + n) }

/-- The class inside of a function, which is then number zero. -/
def ClassYield.nested (c : ClassYield G) : ClassYield G :=
  { c with
    parent := some (c.parent.elim 0 (· + 1))
    methods := c.methods.map (· + 1)
    depth := c.depth + 1 }

/-- Applies a function to the gain. -/
def FunctionYield.map (f : G → H) (y : FunctionYield G) : FunctionYield H :=
  ⟨y.name, y.lines, y.params, y.parent, f y.gain⟩

/-- Applies a function to the gain. -/
def ClassYield.map (f : G → H) (y : ClassYield G) : ClassYield H :=
  ⟨y.name, y.superName, y.lines, y.parent, y.depth, y.methods, f y.gain⟩

end

/-! ### Yields -/

/-- What a tree yields: to the module, to the function around the tree (`own`) and to the class
around it (`member`), the functions and classes in the order they are opened, the numbers of
those functions that are methods of the class around, the dependencies, and the unknown kinds
with their records. What is gained is of a type `G`, so that details of it can be left out. -/
@[ext] structure Yield (G : Type) where
  total : G
  own : G
  member : G
  functions : List (FunctionYield G) := []
  classes : List (ClassYield G) := []
  methods : List Nat := []
  found : List (Dependency Int) := []
  unknown : List (String × Diagnostic) := []
  methods_lt : ∀ i ∈ methods, i < functions.length := by simp
  classMethods_lt : ∀ c ∈ classes, ∀ i ∈ c.methods, i < functions.length := by simp

namespace Yield

variable {G H : Type}

/-- A yield that opens nothing. Everything around gains the same. -/
@[simps] def only (g : G) (found : List (Dependency Int) := [])
    (unknown : List (String × Diagnostic) := []) : Yield G :=
  { total := g, own := g, member := g, found, unknown }

/-- One yield after another. -/
def append [Add G] (y z : Yield G) : Yield G where
  total := y.total + z.total
  own := y.own + z.own
  member := y.member + z.member
  functions := y.functions ++ z.functions.map (.shift y.functions.length)
  classes := y.classes ++ z.classes.map (.shift y.functions.length)
  methods := y.methods ++ z.methods.map (· + y.functions.length)
  found := y.found ++ z.found
  unknown := y.unknown ++ z.unknown
  methods_lt := by
    simp only [List.forall_mem_append, List.forall_mem_map, List.length_append, List.length_map]
    refine ⟨fun i hi => ?_, fun i hi => ?_⟩
    · have := y.methods_lt i hi
      omega
    · have := z.methods_lt i hi
      omega
  classMethods_lt := by
    simp only [List.forall_mem_append, List.forall_mem_map, List.length_append, List.length_map,
      ClassYield.shift]
    refine ⟨fun c hc i hi => ?_, fun c hc i hi => ?_⟩
    · have := y.classMethods_lt c hc i hi
      omega
    · have := z.classMethods_lt c hc i hi
      omega

instance [Add G] : Append (Yield G) := ⟨append⟩

section

variable [Add G] (y z : Yield G)

@[simp] theorem total_append : (y ++ z).total = y.total + z.total := rfl
@[simp] theorem own_append : (y ++ z).own = y.own + z.own := rfl
@[simp] theorem member_append : (y ++ z).member = y.member + z.member := rfl
@[simp] theorem functions_append :
    (y ++ z).functions = y.functions ++ z.functions.map (.shift y.functions.length) := rfl
@[simp] theorem classes_append :
    (y ++ z).classes = y.classes ++ z.classes.map (.shift y.functions.length) := rfl
@[simp] theorem methods_append :
    (y ++ z).methods = y.methods ++ z.methods.map (· + y.functions.length) := rfl
@[simp] theorem found_append : (y ++ z).found = y.found ++ z.found := rfl
@[simp] theorem unknown_append : (y ++ z).unknown = y.unknown ++ z.unknown := rfl

end

/-- Moving up by nothing changes nothing. -/
@[simp] theorem functionShift_zero : FunctionYield.shift (G := G) 0 = id := by
  funext f
  ext <;> simp [FunctionYield.shift]

/-- Moving up by nothing changes nothing. -/
@[simp] theorem classShift_zero : ClassYield.shift (G := G) 0 = id := by
  funext c
  ext <;> simp [ClassYield.shift]

/-- Moving up twice is moving up once. -/
theorem functionShift_shift (m n : Nat) (f : FunctionYield G) :
    (f.shift m).shift n = f.shift (n + m) := by
  ext <;> simp [FunctionYield.shift, Function.comp_def, Nat.add_assoc, Nat.add_comm m n]

/-- Moving up twice is moving up once. -/
theorem classShift_shift (m n : Nat) (c : ClassYield G) :
    (c.shift m).shift n = c.shift (n + m) := by
  ext <;> simp [ClassYield.shift, Function.comp_def, Nat.add_assoc, Nat.add_comm m n]

section

variable [AddMonoid G]

/-- Nothing comes before. -/
@[simp] theorem empty_append (y : Yield G) : only 0 ++ y = y := by
  ext1 <;> simp [only]

/-- Nothing comes after. -/
@[simp] theorem append_empty (y : Yield G) : y ++ only 0 = y := by
  ext1 <;> simp [only]

/-- It does not matter which yields are put together first. -/
theorem append_assoc (x y z : Yield G) : x ++ y ++ z = x ++ (y ++ z) := by
  ext1 <;> simp [add_assoc, functionShift_shift, classShift_shift, Function.comp_def,
    Nat.add_comm, Nat.add_left_comm]

end

/-! ### Scopes around a yield -/

/-- The yield of a function, from that of what is inside. The module and the class around it
gain what comes with opening it. The function around it gains nothing. -/
def inFunction [Add G] [Zero G] (opening : G) (name : Option Document) (lines : Lines Int)
    (params : List Document) (y : Yield G) : Yield G where
  total := opening + y.total
  own := 0
  member := opening + y.member
  functions := { name, lines, params, gain := y.own } :: y.functions.map .nested
  classes := y.classes.map .nested
  methods := [0]
  found := y.found
  unknown := y.unknown
  classMethods_lt := by
    simp only [List.forall_mem_map, ClassYield.nested, List.length_cons, List.length_map]
    intro c hc i hi
    have := y.classMethods_lt c hc i hi
    omega

/-- The yield of a class, from that of what is inside. The class around it gains nothing. -/
def inClass [Zero G] (name superName : Option Document) (lines : Lines Int) (y : Yield G) :
    Yield G where
  total := y.total
  own := y.own
  member := 0
  functions := y.functions
  classes := { name, superName, lines, methods := y.methods, gain := y.member } :: y.classes
  found := y.found
  unknown := y.unknown
  classMethods_lt := List.forall_mem_cons.mpr ⟨y.methods_lt, y.classMethods_lt⟩

/-- The yield of a node that opens a scope, from that of what is inside. A function brings
something for each of its parameters. -/
def enclose [Add G] [Zero G] (opening : Nat → G) (form : ScopeForm) (rule : Rule) (p : Placed)
    (lines : Lines Int) (y : Yield G) : Yield G :=
  let name := rule.naming.bind (·.name? p)
  let params := p.node.parameters.map Document.parameterName
  match form with
  | .classBody => y.inClass name (p.node.get "superClass").name? lines
  | .function => y.inFunction (opening params.length) name lines params

/-! ### Other gains -/

/-- Applies a function to all that is gained. -/
@[simps] def map (f : G → H) (y : Yield G) : Yield H where
  total := f y.total
  own := f y.own
  member := f y.member
  functions := y.functions.map (.map f)
  classes := y.classes.map (.map f)
  methods := y.methods
  found := y.found
  unknown := y.unknown
  methods_lt := by simpa using y.methods_lt
  classMethods_lt := by
    simp only [List.forall_mem_map, List.length_map, ClassYield.map]
    exact y.classMethods_lt

section

variable [AddMonoid G] [AddMonoid H] (f : G →+ H)

/-- Yields one after the other can be changed one by one. -/
theorem map_append (y z : Yield G) : (y ++ z).map f = y.map f ++ z.map f := by
  ext1 <;> simp [Function.comp_def, FunctionYield.map, FunctionYield.shift, ClassYield.map,
    ClassYield.shift]

/-- What is inside a scope can be changed first. -/
theorem map_enclose (opening : Nat → G) (form : ScopeForm) (rule : Rule) (p : Placed)
    (lines : Lines Int) (y : Yield G) :
    (y.enclose opening form rule p lines).map f =
      (y.map f).enclose (f ∘ opening) form rule p lines := by
  cases form <;> ext1 <;> simp [enclose, inFunction, inClass, Function.comp_def,
    FunctionYield.map, FunctionYield.nested, ClassYield.map, ClassYield.nested]

end

/-- Where only the sum counts, what a node gains for itself can be moved behind a yield. -/
theorem only_append_comm [AddCommMonoid G] (g : G) (y : Yield G) : only g ++ y = y ++ only g := by
  ext1 <;> simp [add_comm]

/-! ### Single nodes -/

/-- The yield of a node, without what is below. -/
def ofContribution (s : Settings) (c : Contribution) : Yield Gain :=
  only (.ofContribution c) (c.dependency.map (·.resolved s)).toList

/-- The yield of a node of an unknown kind, without what is below. -/
def ofUnknown (d : Dialect) (s : Settings) (node : Document) : Except Error (Yield Gain) := do
  let error ← (Walk.unknownKind d node).mapError .fault
  if s.on .strict then throw error
  return only 0 [] [(Walk.reportedKind node, error.record "warning")]

end Yield

/-! ### The yield of a tree -/

/-- The lines that a scope without lines of its own takes, inside of a scope of some form. A
class passes on those of the function around it. -/
def ScopeForm.innerLines (form : ScopeForm) (own around : Lines Int) : Lines Int :=
  match form with
  | .classBody => around
  | .function => own

namespace Dialect

mutual

/-- The yield of the tree at a place, where the function around it has the given lines. -/
def harvest (d : Dialect) (s : Settings) (lines : Lines Int) (p : Placed) :
    Except Error (Yield Gain) :=
  match d.ruleFor p.node with
  | none => do
    let y ← Yield.ofUnknown d s p.node
    let below ← harvestAll d s lines p.node (p.node.children [])
    return y ++ below
  | some rule => do
    let c ← (rule.read s p).mapError .fault
    let children := p.node.children c.ignored
    match rule.opens with
    | none =>
      let below ← harvestAll d s lines p.node children
      return .ofContribution s c ++ below
    | some form =>
      let outside ←
        harvestAll d s lines p.node (children.filter fun c => rule.scopeKeys.contains c.key)
      let own := ((← p.node.lines?.mapError .fault).getD lines)
      let inside ← harvestAll d s (form.innerLines own lines) p.node
        (children.filter fun c => !rule.scopeKeys.contains c.key)
      return .ofContribution s c ++ (outside ++ inside.enclose Gain.ofFunction form rule p own)
termination_by (p.node.size, 0)
decreasing_by
  · exact Prod.Lex.left _ _ (Document.sizeChildren_children_lt _ _)
  · exact Prod.Lex.left _ _ (Document.sizeChildren_children_lt _ _)
  · exact Prod.Lex.left _ _ (Nat.lt_of_le_of_lt (Document.sizeChildren_filter_le _ _)
      (Document.sizeChildren_children_lt _ _))
  · exact Prod.Lex.left _ _ (Nat.lt_of_le_of_lt (Document.sizeChildren_filter_le _ _)
      (Document.sizeChildren_children_lt _ _))

/-- The yield of the trees at some children of a node, one after the other. -/
def harvestAll (d : Dialect) (s : Settings) (lines : Lines Int) (parent : Document) :
    List Child → Except Error (Yield Gain)
  | [] => .ok (.only 0)
  | c :: rest => do
    let y ← harvest d s lines (c.placed parent)
    let z ← harvestAll d s lines parent rest
    return y ++ z
termination_by cs => (Document.sizeChildren cs, 1)
decreasing_by
  · -- An only child is as large as the list, and then the second component decides.
    have hle : (c.placed parent).node.size ≤ Document.sizeChildren (c :: rest) :=
      Document.size_le_sizeChildren List.mem_cons_self
    rcases Nat.lt_or_eq_of_le hle with hlt | heq
    · exact Prod.Lex.left _ _ hlt
    · rw [heq]
      exact Prod.Lex.right _ Nat.one_pos
  · have := Document.size_pos c.node
    exact Prod.Lex.left _ _ (by simp only [Document.sizeChildren]; omega)

end

end Dialect

end CodeMetrics
