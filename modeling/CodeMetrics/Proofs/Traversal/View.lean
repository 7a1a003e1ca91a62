import CodeMetrics.Proofs.Traversal.Extension
import Mathlib.Algebra.BigOperators.Group.List.Basic
import Mathlib.Algebra.Order.Group.Multiset
import Mathlib.Algebra.Order.Monoid.Unbundled.WithTop

/-!
# `CodeMetrics.Proofs.Traversal.View`: yields without the order of things

The yields of several trees depend on the order of the trees, in which functions come first
and which tokens. A `View` is what is left of a yield when the order is forgotten. Views form
a commutative monoid, and the view of one yield after another is their sum (`view_append`). A
function or a class around a tree can be put around a view (`view_inFunction`, `view_inClass`).

A harvest may fail. The view of a failure is `⊤`, and adding to it gives `⊤` again. So the
view of some children is a sum over the children (`viewOf_harvestAll`), and the order of the
children does not matter for it.
-/

set_option autoImplicit false

namespace CodeMetrics

/-! ### Counts -/

/-- The numbers of a scope: logical lines, paths, parameters, and how often each token
occurs. -/
@[ext] structure ScopeCounts where
  logical : Int
  cyclomatic : Int
  params : Int
  operators : String → Nat
  operands : String → Nat

namespace ScopeCounts

instance : Zero ScopeCounts := ⟨⟨0, 0, 0, 0, 0⟩⟩

instance : Add ScopeCounts :=
  ⟨fun a b => ⟨a.logical + b.logical, a.cyclomatic + b.cyclomatic, a.params + b.params,
    a.operators + b.operators, a.operands + b.operands⟩⟩

section

variable (a b : ScopeCounts)

@[simp] theorem logical_zero : (0 : ScopeCounts).logical = 0 := rfl
@[simp] theorem cyclomatic_zero : (0 : ScopeCounts).cyclomatic = 0 := rfl
@[simp] theorem params_zero : (0 : ScopeCounts).params = 0 := rfl
@[simp] theorem operators_zero : (0 : ScopeCounts).operators = 0 := rfl
@[simp] theorem operands_zero : (0 : ScopeCounts).operands = 0 := rfl
@[simp] theorem logical_add : (a + b).logical = a.logical + b.logical := rfl
@[simp] theorem cyclomatic_add : (a + b).cyclomatic = a.cyclomatic + b.cyclomatic := rfl
@[simp] theorem params_add : (a + b).params = a.params + b.params := rfl
@[simp] theorem operators_add : (a + b).operators = a.operators + b.operators := rfl
@[simp] theorem operands_add : (a + b).operands = a.operands + b.operands := rfl

end

instance : AddCommMonoid ScopeCounts where
  add_assoc a b c := by ext <;> simp [add_assoc]
  zero_add a := by ext <;> simp
  add_zero a := by ext <;> simp
  add_comm a b := by ext <;> simp [add_comm]
  nsmul := nsmulRec

end ScopeCounts

/-- The numbers that a gain brings. -/
def Gain.counts (g : Gain) : ScopeCounts :=
  ⟨g.lines, g.paths, g.params, fun token => g.operators.count token,
    fun token => g.operands.count token⟩

@[simp] theorem Gain.counts_zero : (0 : Gain).counts = 0 := rfl

@[simp] theorem Gain.counts_add (g h : Gain) : (g + h).counts = g.counts + h.counts := by
  ext <;> simp [counts]

/-- The numbers of a scope. -/
def Scope.counts (scope : Scope Int String) : ScopeCounts :=
  ⟨scope.logical, scope.cyclomatic, scope.paramCount, scope.operators.count,
    scope.operands.count⟩

/-- Adding tokens to a tally adds up how often they occur. -/
theorem Tally.count_addAll (t : Tally String) (tokens : List String) (token : String) :
    (tokens.foldl Tally.add t).count token = t.count token + tokens.count token := by
  induction tokens generalizing t with
  | nil => rfl
  | cons first rest ih =>
    rw [List.foldl_cons, ih, count_add, List.count_cons]
    omega

/-- A gain adds its numbers to those of a scope. -/
@[simp] theorem Scope.counts_collect (g : Gain) (scope : Scope Int String) :
    (scope.collect g).counts = scope.counts + g.counts := by
  ext <;> simp [counts, collect, Gain.counts, Tally.count_addAll]

/-! ### Records -/

/-- What is known of a function, apart from its place among the others. A function without a
name of its own has none. -/
structure FunctionRecord where
  name : Option Document
  params : List Document
  lines : Lines Int
  counts : ScopeCounts

/-- What is known of a class, apart from its place among the others. -/
structure ClassRecord where
  name : Option Document
  superName : Option Document
  lines : Lines Int
  depth : Nat
  counts : ScopeCounts
  methods : Multiset FunctionRecord

/-- The numbers that a function with so many parameters starts with. -/
def ScopeCounts.ofFunction (params : Nat) : ScopeCounts :=
  ⟨0, 1, params, 0, 0⟩

/-- The record of a function. -/
def FunctionYield.record (f : FunctionYield Gain) : FunctionRecord :=
  ⟨f.name, f.params, f.lines, .ofFunction f.params.length + f.gain.counts⟩

@[simp] theorem FunctionYield.record_shift (n : Nat) (f : FunctionYield Gain) :
    (f.shift n).record = f.record := rfl

@[simp] theorem FunctionYield.record_nested (f : FunctionYield Gain) :
    f.nested.record = f.record := rfl

/-- The records of the functions with the given numbers. -/
def FunctionYield.recordsAt (functions : List (FunctionYield Gain)) (numbers : List Nat) :
    Multiset FunctionRecord :=
  (numbers.filterMap fun i => (functions[i]?).map record : List FunctionRecord)

/-- The record of a class, where the numbers of its methods are among the given functions. -/
def ClassYield.record (functions : List (FunctionYield Gain)) (c : ClassYield Gain) : ClassRecord :=
  ⟨c.name, c.superName, c.lines, c.depth, .ofFunction 0 + c.gain.counts,
    FunctionYield.recordsAt functions c.methods⟩

namespace FunctionYield

/-- Functions that come behind do not matter for numbers that are in range. -/
theorem recordsAt_append_left {fs : List (FunctionYield Gain)} {numbers : List Nat}
    (h : ∀ i ∈ numbers, i < fs.length) (gs : List (FunctionYield Gain)) :
    recordsAt (fs ++ gs) numbers = recordsAt fs numbers := by
  unfold recordsAt
  congr 1
  refine List.filterMap_congr fun i hi => ?_
  rw [List.getElem?_append_left (h i hi)]

/-- Functions that come before move the numbers up. -/
theorem recordsAt_append_right (fs gs : List (FunctionYield Gain)) (numbers : List Nat) :
    recordsAt (fs ++ gs.map (shift fs.length)) (numbers.map (· + fs.length)) =
      recordsAt gs numbers := by
  unfold recordsAt
  congr 1
  rw [List.filterMap_map]
  refine List.filterMap_congr fun i _ => ?_
  simp [List.getElem?_append_right, Function.comp_def]

/-- A function that comes first moves the numbers up by one. -/
theorem recordsAt_cons_nested (f : FunctionYield Gain) (gs : List (FunctionYield Gain))
    (numbers : List Nat) :
    recordsAt (f :: gs.map nested) (numbers.map (· + 1)) = recordsAt gs numbers := by
  unfold recordsAt
  congr 1
  rw [List.filterMap_map]
  refine List.filterMap_congr fun i _ => ?_
  simp [Function.comp_def]

theorem recordsAt_append_numbers (fs : List (FunctionYield Gain)) (numbers more : List Nat) :
    recordsAt fs (numbers ++ more) = recordsAt fs numbers + recordsAt fs more := by
  simp [recordsAt]

end FunctionYield

/-! ### Views -/

/-- What a tree yields, without any order. -/
@[ext] structure View where
  total : ScopeCounts
  own : ScopeCounts
  member : ScopeCounts
  functions : Multiset FunctionRecord
  classes : Multiset ClassRecord
  methods : Multiset FunctionRecord
  found : Multiset (Dependency Int)
  unknown : Multiset String

namespace View

instance : Zero View := ⟨⟨0, 0, 0, 0, 0, 0, 0, 0⟩⟩

instance : Add View :=
  ⟨fun v w => ⟨v.total + w.total, v.own + w.own, v.member + w.member, v.functions + w.functions,
    v.classes + w.classes, v.methods + w.methods, v.found + w.found, v.unknown + w.unknown⟩⟩

theorem add_def (v w : View) : v + w =
    ⟨v.total + w.total, v.own + w.own, v.member + w.member, v.functions + w.functions,
      v.classes + w.classes, v.methods + w.methods, v.found + w.found, v.unknown + w.unknown⟩ :=
  rfl

theorem zero_def : (0 : View) = ⟨0, 0, 0, 0, 0, 0, 0, 0⟩ := rfl

instance : AddCommMonoid View where
  add_assoc a b c := by simp [add_def, add_assoc]
  zero_add a := by simp [add_def, zero_def]
  add_zero a := by simp [add_def, zero_def]
  add_comm a b := by simp [add_def, add_comm]
  nsmul := nsmulRec

/-- A function around a view. -/
def inFunction (name : Option Document) (lines : Lines Int) (params : List Document) (v : View) :
    View :=
  let record : FunctionRecord := ⟨name, params, lines, .ofFunction params.length + v.own⟩
  { total := .ofFunction params.length + v.total
    own := 0
    member := .ofFunction params.length + v.member
    functions := record ::ₘ v.functions
    classes := v.classes.map fun c => { c with depth := c.depth + 1 }
    methods := {record}
    found := v.found
    unknown := v.unknown }

/-- A class around a view. -/
def inClass (name superName : Option Document) (lines : Lines Int) (v : View) : View :=
  { total := v.total
    own := v.own
    member := 0
    functions := v.functions
    classes := ⟨name, superName, lines, 0, .ofFunction 0 + v.member, v.methods⟩ ::ₘ v.classes
    methods := 0
    found := v.found
    unknown := v.unknown }

end View

namespace Yield

/-- A yield without any order. -/
def view (y : Yield Gain) : View where
  total := y.total.counts
  own := y.own.counts
  member := y.member.counts
  functions := (y.functions.map FunctionYield.record : List FunctionRecord)
  classes := (y.classes.map (ClassYield.record y.functions) : List ClassRecord)
  methods := FunctionYield.recordsAt y.functions y.methods
  found := y.found
  unknown := (y.unknown.map Prod.fst : List String)

/-- The empty yield has the empty view. -/
@[simp] theorem view_empty : (.only 0 : Yield Gain).view = 0 := rfl

/-- The view of one yield after another is the sum of their views. -/
theorem view_append (y z : Yield Gain) : (y ++ z).view = y.view + z.view := by
  -- Methods are numbers of functions. Those of `z` are shifted, and so are the functions they stand
  -- for.
  have hmethods : FunctionYield.recordsAt (y ++ z).functions (y ++ z).methods =
      FunctionYield.recordsAt y.functions y.methods +
        FunctionYield.recordsAt z.functions z.methods := by
    rw [functions_append, methods_append, FunctionYield.recordsAt_append_numbers,
      FunctionYield.recordsAt_append_left y.methods_lt, FunctionYield.recordsAt_append_right]
  have hclasses : (y ++ z).classes.map (ClassYield.record (y ++ z).functions) =
      y.classes.map (ClassYield.record y.functions) ++
        z.classes.map (ClassYield.record z.functions) := by
    rw [functions_append, classes_append, List.map_append, List.map_map]
    congr 1
    · refine List.map_congr_left fun c hc => ?_
      simp only [ClassYield.record,
        FunctionYield.recordsAt_append_left (y.classMethods_lt c hc)]
    · refine List.map_congr_left fun c _ => ?_
      simp only [ClassYield.record, ClassYield.shift, Function.comp_apply,
        FunctionYield.recordsAt_append_right]
  have hfunctions : (y ++ z).functions.map FunctionYield.record =
      y.functions.map FunctionYield.record ++ z.functions.map FunctionYield.record := by
    simp [Function.comp_def]
  refine View.ext (Gain.counts_add _ _) (Gain.counts_add _ _) (Gain.counts_add _ _) ?_ ?_
    hmethods rfl ?_
  · exact congrArg Multiset.ofList hfunctions
  · exact congrArg Multiset.ofList hclasses
  · exact congrArg Multiset.ofList (List.map_append ..)

/-- A function around a yield is a function around its view. -/
theorem view_inFunction (name : Option Document) (lines : Lines Int) (params : List Document)
    (y : Yield Gain) :
    (y.inFunction (.ofFunction params.length) name lines params).view =
      y.view.inFunction name lines params := by
  let f : FunctionYield Gain := { name, lines, params, gain := y.own }
  have hfunctions : (f :: y.functions.map .nested).map FunctionYield.record =
      f.record :: y.functions.map FunctionYield.record := by
    simp [Function.comp_def]
  have hclasses : (y.classes.map ClassYield.nested).map
        (ClassYield.record (f :: y.functions.map .nested)) =
      (y.classes.map (ClassYield.record y.functions)).map
        fun c => { c with depth := c.depth + 1 } := by
    rw [List.map_map, List.map_map]
    refine List.map_congr_left fun c _ => ?_
    simp only [ClassYield.record, ClassYield.nested, Function.comp_apply,
      FunctionYield.recordsAt_cons_nested]
  refine View.ext (Gain.counts_add _ _) rfl (Gain.counts_add _ _) ?_ ?_ rfl rfl rfl
  · exact congrArg Multiset.ofList hfunctions
  · exact congrArg Multiset.ofList hclasses

/-- A class around a yield is a class around its view. -/
theorem view_inClass (name superName : Option Document) (lines : Lines Int) (y : Yield Gain) :
    (y.inClass name superName lines).view = y.view.inClass name superName lines := rfl

end Yield

namespace View

/-- A scope around a view, as `Yield.enclose`. -/
def enclose (form : ScopeForm) (rule : Rule) (p : Placed) (lines : Lines Int) (v : View) : View :=
  let name := rule.naming.bind (·.name? p)
  match form with
  | .classBody => v.inClass name (p.node.get "superClass").name? lines
  | .function => v.inFunction name lines (p.node.parameters.map Document.parameterName)

/-- The view of a result. Where there is none it is `⊤`, whatever the error. -/
def ofResult : Except Error (Yield Gain) → WithTop View
  | .ok y => (y.view : View)
  | .error _ => ⊤

@[simp] theorem ofResult_ok (y : Yield Gain) : ofResult (.ok y) = (y.view : View) := rfl
@[simp] theorem ofResult_pure (y : Yield Gain) : ofResult (pure y) = (y.view : View) := rfl
@[simp] theorem ofResult_error (e : Error) : ofResult (.error e) = ⊤ := rfl

/-- The view of one result after another is the sum of their views. -/
theorem ofResult_append (x : Except Error (Yield Gain)) (x' : Except Error (Yield Gain)) :
    ofResult (do let y ← x; let z ← x'; return y ++ z) = ofResult x + ofResult x' := by
  cases x with
  | error e => exact (WithTop.top_add _).symm
  | ok y =>
    cases x' with
    | error e => exact (WithTop.add_top _).symm
    | ok z =>
      show ((y ++ z).view : WithTop View) = y.view + z.view
      rw [Yield.view_append, WithTop.coe_add]

/-- The view of what is in a scope, with the scope around it. -/
theorem ofResult_enclose (form : ScopeForm) (rule : Rule) (p : Placed) (lines : Lines Int)
    (x : Except Error (Yield Gain)) :
    ofResult (do let y ← x; return y.enclose Gain.ofFunction form rule p lines) =
      (ofResult x).map (enclose form rule p lines) := by
  cases x with
  | error e => rfl
  | ok y =>
    cases form with
    | classBody => rfl
    | function => exact congrArg WithTop.some (Yield.view_inFunction _ _ _ y)

end View

namespace Dialect

variable (d : Dialect) (s : Settings)

/-- The view of some children is the sum of their views. -/
theorem ofResult_harvestAll (lines : Lines Int) (parent : Document) (cs : List Child) :
    View.ofResult (d.harvestAll s lines parent cs) =
      (cs.map fun c => View.ofResult (d.harvest s lines (c.placed parent))).sum := by
  induction cs with
  | nil =>
    rw [harvestAll]
    rfl
  | cons c rest ih => rw [harvestAll, View.ofResult_append, ih, List.map_cons, List.sum_cons]

end Dialect

end CodeMetrics
