import CodeMetrics.Proofs.Scope.Nesting
import CodeMetrics.Proofs.Tally
import CodeMetrics.Scope.Operation
import Mathlib.Algebra.BigOperators.Group.List.Basic
import Mathlib.Algebra.GroupWithZero.Nat
import Mathlib.Algebra.Ring.Int.Defs

/-!
# `CodeMetrics.Proofs.Scope.Conservation`: nothing is counted twice and nothing is lost

Operations on a tree of scopes can come in any order. Functions and classes need not be closed
in the order they were opened, and closing may fail. Whatever the order, the module has what
its functions have together and what was added while no function was open. The same holds of
its classes, which also get a path and the parameters of each function that is opened while
they are the innermost class.

A `Quantity` is one of the numbers that a scope keeps: lines, paths, parameters, or how often
a token occurs. `Quantity.read_module_step`, `ofFunctions_step` and `ofClasses_step` say what
one operation does to it in the module, in all functions and in all classes, and the lemmas
about `run` say it for a whole sequence. `ScopeTree.module_conserved` puts the quantities
together.
-/

set_option autoImplicit false

namespace CodeMetrics

namespace ScopeTree

/-- The tree after some operations. Those that fail change nothing. -/
def run (t : ScopeTree Int String) (ops : List (Op Int String)) : ScopeTree Int String :=
  ops.foldl step t

/-! ### What is open when -/

namespace Op

/-- The number of open scopes of a form after an operation, from the number before. -/
def level (form : ScopeForm) (n : Nat) : Op Int String → Nat
  | .push _ _ _ => if form = .function then n + 1 else n
  | .pop => if form = .function then n - 1 else n
  | .openClass _ _ _ => if form = .classBody then n + 1 else n
  | .closeClass => if form = .classBody then n - 1 else n
  | _ => n

/-- The operations that are carried out while `keep` holds of the number of open scopes. -/
def during (form : ScopeForm) (keep : Nat → Bool) : Nat → List (Op Int String) →
    List (Op Int String)
  | _, [] => []
  | n, op :: rest =>
    if keep n then op :: during form keep (op.level form n) rest
    else during form keep (op.level form n) rest

/-- The operations that are carried out while no scope of the form is open. -/
def outside (form : ScopeForm) (ops : List (Op Int String)) : List (Op Int String) :=
  during form (· == 0) 0 ops

/-- The operations that are carried out while some scope of the form is open. -/
def inside (form : ScopeForm) (ops : List (Op Int String)) : List (Op Int String) :=
  during form (· != 0) 0 ops

/-! ### What an operation adds -/

/-- The logical lines that an operation adds. -/
def lines : Op Int String → Int
  | .addLogical n => n
  | _ => 0

/-- The paths that an operation adds, without those of new functions. -/
def paths : Op Int String → Int
  | .addCyclomatic n => n
  | _ => 0

/-- One for a function that is opened. -/
def pushes : Op Int String → Int
  | .push _ _ _ => 1
  | _ => 0

/-- The number of parameters of a function that is opened. -/
def params : Op Int String → Int
  | .push _ _ names => names.length
  | _ => 0

/-- The operator that an operation adds. -/
def operator? : Op Int String → Option String
  | .addOperator token => some token
  | _ => none

/-- The operand that an operation adds. -/
def operand? : Op Int String → Option String
  | .addOperand token => some token
  | _ => none

/-- What an operation does to each scope that a contribution goes to. -/
def change : Op Int String → Scope Int String → Scope Int String
  | .addLogical n => Scope.addLogical n
  | .addCyclomatic n => Scope.addCyclomatic n
  | .addOperator token => Scope.addOperator token
  | .addOperand token => Scope.addOperand token
  | _ => id

/-- Whatever is added is added inside or outside. -/
theorem sum_during (form : ScopeForm) (f : Op Int String → Int) (n : Nat)
    (ops : List (Op Int String)) :
    (ops.map f).sum =
      ((during form (· != 0) n ops).map f).sum + ((during form (· == 0) n ops).map f).sum := by
  induction ops generalizing n with
  | nil => rfl
  | cons op rest ih =>
    have hrest := ih (op.level form n)
    by_cases h : n = 0
    · simp [during, h] at hrest ⊢
      omega
    · simp [during, h] at hrest ⊢
      omega

end Op

/-! ### One operation

What an operation does to the list of scopes, in the terms of `Op.level` and `Op.change`.
-/

/-- The open scopes are among the scopes. -/
structure Sound {κ τ : Type} (t : ScopeTree κ τ) : Prop where
  functions : ∀ i ∈ t.openFunctions, 0 < i ∧ i ≤ t.functions.length
  classes : ∀ i ∈ t.openClasses, i < t.classes.length

/-- Nothing is open at the start. -/
theorem sound_start (lines : Lines Int) : (start lines : ScopeTree Int String).Sound where
  functions i hi := by cases hi
  classes i hi := by cases hi

variable (t : ScopeTree Int String)

/-- Closing a function takes the innermost one off, if there is one. -/
theorem step_pop : t.step .pop = { t with openFunctions := t.openFunctions.tail } := by
  cases t with
  | mk module functions openFunctions classes openClasses anonymous =>
    cases openFunctions <;> rfl

/-- Closing a class takes the innermost one off, if there is one. -/
theorem step_closeClass : t.step .closeClass = { t with openClasses := t.openClasses.tail } := by
  cases t with
  | mk module functions openFunctions classes openClasses anonymous =>
    cases openClasses <;> rfl

/-- Everything that an operation can do: contribute to the open scopes, open or close a
function, open or close a class, or take a name. -/
theorem step_cases (op : Op Int String) :
    (t.step op = t.contribute op.change ∧ op.pushes = 0 ∧ ∀ form n, op.level form n = n) ∨
    (∃ name lines params, op = .push name lines params ∧
      t.step op = t.push name lines params) ∨
    (op = .pop ∧ t.step op = { t with openFunctions := t.openFunctions.tail }) ∨
    (∃ name superName lines, op = .openClass name superName lines ∧
      t.step op = t.openClass name superName lines) ∨
    (op = .closeClass ∧ t.step op = { t with openClasses := t.openClasses.tail }) ∨
    (op = .nextAnonymousName ∧ t.step op = { t with anonymous := t.anonymous + 1 }) := by
  cases op with
  | push name lines params => exact Or.inr (Or.inl ⟨name, lines, params, rfl, rfl⟩)
  | pop => exact Or.inr (Or.inr (Or.inl ⟨rfl, t.step_pop⟩))
  | openClass name superName lines =>
    exact Or.inr (Or.inr (Or.inr (Or.inl ⟨name, superName, lines, rfl, rfl⟩)))
  | closeClass => exact Or.inr (Or.inr (Or.inr (Or.inr (Or.inl ⟨rfl, t.step_closeClass⟩))))
  | nextAnonymousName => exact Or.inr (Or.inr (Or.inr (Or.inr (Or.inr ⟨rfl, rfl⟩))))
  | addLogical n => exact Or.inl ⟨rfl, rfl, fun _ _ => rfl⟩
  | addCyclomatic n => exact Or.inl ⟨rfl, rfl, fun _ _ => rfl⟩
  | addOperator token => exact Or.inl ⟨rfl, rfl, fun _ _ => rfl⟩
  | addOperand token => exact Or.inl ⟨rfl, rfl, fun _ _ => rfl⟩

variable {t}

/-- An operation keeps the open scopes among the scopes. -/
theorem Sound.step (h : t.Sound) (op : Op Int String) : (t.step op).Sound := by
  rcases t.step_cases op with ⟨hstep, -, -⟩ | ⟨name, lines, params, -, hstep⟩ | ⟨-, hstep⟩ |
    ⟨name, superName, lines, -, hstep⟩ | ⟨-, hstep⟩ | ⟨-, hstep⟩
  · rw [hstep]
    exact ⟨by simpa using h.functions, by simpa using h.classes⟩
  -- The new function is the last one, and it is the one that is opened.
  · obtain ⟨own, hfunctions⟩ := functions_push t name lines params
    rw [hstep]
    constructor
    · simp only [openFunctions_push, hfunctions, List.length_append, List.length_singleton,
        List.forall_mem_cons]
      refine ⟨by omega, fun i hi => ?_⟩
      have := h.functions i hi
      omega
    · simpa using h.classes
  · rw [hstep]
    exact ⟨fun i hi => h.functions i (List.mem_of_mem_tail hi), h.classes⟩
  · rw [hstep]
    refine ⟨h.functions, ?_⟩
    simp only [openClass, List.length_append, List.length_singleton, List.forall_mem_cons]
    refine ⟨by omega, fun i hi => ?_⟩
    have := h.classes i hi
    omega
  · rw [hstep]
    exact ⟨h.functions, fun i hi => h.classes i (List.mem_of_mem_tail hi)⟩
  · rw [hstep]
    exact ⟨h.functions, h.classes⟩

/-- As many scopes are open after an operation as its level says. -/
theorem length_openScopes_step (t : ScopeTree Int String) (op : Op Int String)
    (form : ScopeForm) :
    ((t.step op).openScopes form).length = op.level form (t.openScopes form).length := by
  rcases t.step_cases op with ⟨hstep, -, hlevel⟩ | ⟨name, lines, params, rfl, hstep⟩ |
    ⟨rfl, hstep⟩ | ⟨name, superName, lines, rfl, hstep⟩ | ⟨rfl, hstep⟩ | ⟨rfl, hstep⟩
  · rw [hstep, hlevel]
    cases form <;> simp [openScopes]
  all_goals
    rw [hstep]
    cases form <;> simp [openScopes, Op.level, openClass]

end ScopeTree

/-! ### Quantities -/

/-- A number that every scope keeps. -/
structure Quantity where
  read : Scope Int String → Int
  /-- What the module and a class start with. -/
  base : Int
  /-- What an operation adds to each scope that a contribution goes to. -/
  added : ScopeTree.Op Int String → Int
  /-- What a function with so many parameters starts with. The module and the innermost class
  get as much when it is opened. -/
  brought : Nat → Int
  read_change : ∀ op scope, read (op.change scope) = read scope + added op
  read_addFunction : ∀ params scope, read (scope.addFunction params) = read scope + brought params
  read_function : ∀ index name lines parent (params : List Document),
    read { index, name, lines, parent, logical := 0, cyclomatic := 1,
           paramCount := params.length, paramNames := params } = brought params.length
  read_fresh : ∀ index name lines parent,
    read { index, name, lines, parent, logical := 0, cyclomatic := 1 } = base

namespace Quantity

open ScopeTree (Op)

/-- What the module and the innermost class get when a function is opened. -/
def opened (q : Quantity) : Op Int String → Int
  | .push _ _ params => q.brought params.length
  | _ => 0

/-- All that the module gets from an operation. -/
def gained (q : Quantity) (op : Op Int String) : Int :=
  q.added op + q.opened op

/-- The quantity in all functions together. -/
def ofFunctions (q : Quantity) (t : ScopeTree Int String) : Int :=
  (t.functions.map q.read).sum

/-- The quantity in all classes together, without what they start with. -/
def ofClasses (q : Quantity) (t : ScopeTree Int String) : Int :=
  (t.classes.map fun c => q.read c.toScope - q.base).sum

variable (q : Quantity)

/-- An operation that does not change the open scopes adds nothing to them. -/
theorem added_eq_zero {op : Op Int String} (h : op.change = id) : q.added op = 0 := by
  have hread := q.read_change op (ScopeTree.start ⟨0, 0⟩).module
  rw [h, id] at hread
  omega

/-- An operation that opens no function brings nothing. -/
theorem opened_eq_zero {op : Op Int String} (h : op.pushes = 0) : q.opened op = 0 := by
  cases op with
  | push name lines params => cases h
  | _ => rfl

/-- Changing one of several scopes changes the sum by as much. -/
theorem sum_modify {α : Type} (read : α → Int) (f : α → α) {n : Int}
    (hf : ∀ a, read (f a) = read a + n) (l : List α) {i : Nat} (hi : i < l.length) :
    ((l.modify i f).map read).sum = (l.map read).sum + n := by
  induction l generalizing i with
  | nil => cases hi
  | cons a rest ih =>
    cases i with
    | zero =>
      simp only [List.modify_zero_cons, List.map_cons, List.sum_cons, hf]
      omega
    | succ i =>
      have hrest := ih (Nat.lt_of_succ_lt_succ hi)
      simp only [List.modify_succ_cons, List.map_cons, List.sum_cons, hrest]
      omega

/-- Changing the innermost open function, if there is one. -/
theorem ofFunctions_modifyFunction {t : ScopeTree Int String} (h : t.Sound)
    {f : Scope Int String → Scope Int String} {n : Int} (hf : ∀ s, q.read (f s) = q.read s + n) :
    q.ofFunctions (t.modifyFunction f) =
      q.ofFunctions t + if (t.openScopes .function).length = 0 then 0 else n := by
  unfold ScopeTree.modifyFunction
  cases hopen : t.openFunctions with
  | nil => simp [ScopeTree.openScopes, hopen]
  | cons i rest =>
    have hi := h.functions i (by rw [hopen]; exact List.mem_cons_self)
    have hsum := sum_modify q.read f hf t.functions (i := i - 1) (by omega)
    simp [ScopeTree.openScopes, hopen, ofFunctions, hsum]

/-- Changing the innermost open class, if there is one. -/
theorem ofClasses_modifyClass {t : ScopeTree Int String} (h : t.Sound)
    {f : ClassScope Int String → ClassScope Int String} {n : Int}
    (hf : ∀ c, q.read (f c).toScope = q.read c.toScope + n) :
    q.ofClasses (t.modifyClass f) =
      q.ofClasses t + if (t.openScopes .classBody).length = 0 then 0 else n := by
  unfold ScopeTree.modifyClass
  cases hopen : t.openClasses with
  | nil => simp [ScopeTree.openScopes, hopen]
  | cons i rest =>
    have hi := h.classes i (by rw [hopen]; exact List.mem_cons_self)
    have hsum := sum_modify (fun c => q.read c.toScope - q.base) f (n := n)
      (fun c => by have := hf c; omega) t.classes hi
    simp [ScopeTree.openScopes, hopen, ofClasses, hsum]

/-! ### One operation, in the module, in all functions and in all classes -/

/-- The module gets all that there is. -/
theorem read_module_step (t : ScopeTree Int String) (op : Op Int String) :
    q.read (t.step op).module = q.read t.module + q.gained op := by
  unfold gained
  rcases t.step_cases op with ⟨hstep, hpush, -⟩ | ⟨name, lines, params, rfl, hstep⟩ |
    ⟨rfl, hstep⟩ | ⟨name, superName, lines, rfl, hstep⟩ | ⟨rfl, hstep⟩ | ⟨rfl, hstep⟩
  · rw [hstep, ScopeTree.module_contribute, q.read_change, q.opened_eq_zero hpush]
    omega
  · rw [hstep, ScopeTree.module_push, q.read_addFunction, q.added_eq_zero rfl, opened]
    omega
  all_goals
    rw [hstep, q.added_eq_zero rfl, q.opened_eq_zero rfl]
    exact (Int.add_zero _).symm

/-- A new function starts with what it brings. Otherwise only the innermost open function gets
what is added. -/
theorem ofFunctions_step {t : ScopeTree Int String} (h : t.Sound) (op : Op Int String) :
    q.ofFunctions (t.step op) = q.ofFunctions t + q.opened op +
      if (t.openScopes .function).length = 0 then 0 else q.added op := by
  rcases t.step_cases op with ⟨hstep, hpush, -⟩ | ⟨name, lines, params, rfl, hstep⟩ |
    ⟨rfl, hstep⟩ | ⟨name, superName, lines, rfl, hstep⟩ | ⟨rfl, hstep⟩ | ⟨rfl, hstep⟩
  · have hmodify := q.ofFunctions_modifyFunction h (q.read_change op)
    rw [hstep, ofFunctions, ScopeTree.functions_contribute, q.opened_eq_zero hpush,
      Int.add_zero]
    exact hmodify
  · obtain ⟨own, hfunctions⟩ := ScopeTree.functions_push t name lines params
    rw [hstep, ofFunctions, hfunctions, List.map_append, List.sum_append, q.added_eq_zero rfl,
      ite_self]
    simp [q.read_function, opened, ofFunctions]
  all_goals
    rw [hstep, q.added_eq_zero rfl, q.opened_eq_zero rfl, ite_self]
    simp [ofFunctions, ScopeTree.openClass]

/-- Only the innermost open class gets something, whether it is added or comes with a function
that is opened. -/
theorem ofClasses_step {t : ScopeTree Int String} (h : t.Sound) (op : Op Int String) :
    q.ofClasses (t.step op) = q.ofClasses t +
      if (t.openScopes .classBody).length = 0 then 0 else q.gained op := by
  unfold gained
  rcases t.step_cases op with ⟨hstep, hpush, -⟩ | ⟨name, lines, params, rfl, hstep⟩ |
    ⟨rfl, hstep⟩ | ⟨name, superName, lines, rfl, hstep⟩ | ⟨rfl, hstep⟩ | ⟨rfl, hstep⟩
  · have hmodify := q.ofClasses_modifyClass h
      (f := fun c => { c with toScope := op.change c.toScope }) fun c => q.read_change op c.toScope
    rw [hstep, ofClasses, ScopeTree.classes_contribute, q.opened_eq_zero hpush, Int.add_zero]
    exact hmodify
  · have hmodify := q.ofClasses_modifyClass h
      (f := ScopeTree.enroll params.length t.depth (t.functions.length + 1))
      fun c => q.read_addFunction params.length c.toScope
    rw [hstep, ofClasses, ScopeTree.classes_push, q.added_eq_zero rfl, Int.zero_add]
    exact hmodify
  · rw [hstep, q.added_eq_zero rfl, q.opened_eq_zero rfl]
    simp [ofClasses]
  · -- A new class has nothing but what it starts with.
    rw [hstep, q.added_eq_zero rfl, q.opened_eq_zero rfl]
    simp [ofClasses, ScopeTree.openClass, q.read_fresh]
  · rw [hstep, q.added_eq_zero rfl, q.opened_eq_zero rfl]
    simp [ofClasses]
  · rw [hstep, q.added_eq_zero rfl, q.opened_eq_zero rfl]
    simp [ofClasses]

/-! ### A sequence of operations -/

/-- The module has what it started with and all that the operations brought. -/
theorem read_module_run (t : ScopeTree Int String) (ops : List (Op Int String)) :
    q.read (t.run ops).module = q.read t.module + (ops.map q.gained).sum := by
  induction ops generalizing t with
  | nil => exact (Int.add_zero _).symm
  | cons op rest ih =>
    have hstep := q.read_module_step t op
    have hrest := ih (t.step op)
    simp only [List.map_cons, List.sum_cons]
    show q.read ((t.step op).run rest).module = _
    omega

/-- The functions have what new functions brought and what was added while one was open. -/
theorem ofFunctions_run {t : ScopeTree Int String} (h : t.Sound) (ops : List (Op Int String)) :
    q.ofFunctions (t.run ops) = q.ofFunctions t + (ops.map q.opened).sum +
      ((Op.during .function (· != 0) (t.openScopes .function).length ops).map q.added).sum := by
  induction ops generalizing t with
  | nil => simp [ScopeTree.run, Op.during]
  | cons op rest ih =>
    have hstep := q.ofFunctions_step h op
    have hrest := ih (h.step op)
    rw [ScopeTree.length_openScopes_step] at hrest
    simp only [List.map_cons, List.sum_cons, Op.during]
    show q.ofFunctions ((t.step op).run rest) = _
    by_cases hopen : (t.openScopes .function).length = 0
    · simp [hopen] at hstep hrest ⊢
      omega
    · simp [hopen] at hstep hrest ⊢
      omega

/-- The classes have what was added or brought while one was open. -/
theorem ofClasses_run {t : ScopeTree Int String} (h : t.Sound) (ops : List (Op Int String)) :
    q.ofClasses (t.run ops) = q.ofClasses t +
      ((Op.during .classBody (· != 0) (t.openScopes .classBody).length ops).map q.gained).sum := by
  induction ops generalizing t with
  | nil => simp [ScopeTree.run, Op.during]
  | cons op rest ih =>
    have hstep := q.ofClasses_step h op
    have hrest := ih (h.step op)
    rw [ScopeTree.length_openScopes_step] at hrest
    simp only [Op.during]
    show q.ofClasses ((t.step op).run rest) = _
    by_cases hopen : (t.openScopes .classBody).length = 0
    · simp [hopen] at hstep hrest ⊢
      omega
    · simp [hopen] at hstep hrest ⊢
      omega

/-! ### The quantities of a scope -/

/-- Logical lines. -/
def logical : Quantity where
  read := Scope.logical
  base := 0
  added := Op.lines
  brought _ := 0
  read_change op scope := by cases op <;> simp [Op.change, Op.lines, Scope.addLogical,
    Scope.addCyclomatic, Scope.addOperator, Scope.addOperand]
  read_addFunction _ _ := (Int.add_zero _).symm
  read_function _ _ _ _ _ := rfl
  read_fresh _ _ _ _ := rfl

/-- Paths through the code. -/
def cyclomatic : Quantity where
  read := Scope.cyclomatic
  base := 1
  added := Op.paths
  brought _ := 1
  read_change op scope := by cases op <;> simp [Op.change, Op.paths, Scope.addLogical,
    Scope.addCyclomatic, Scope.addOperator, Scope.addOperand]
  read_addFunction _ _ := rfl
  read_function _ _ _ _ _ := rfl
  read_fresh _ _ _ _ := rfl

/-- Parameters. Nothing but new functions adds any. -/
def paramCount : Quantity where
  read := Scope.paramCount
  base := 0
  added _ := 0
  brought params := params
  read_change op scope := by cases op <;> simp [Op.change, Scope.addLogical,
    Scope.addCyclomatic, Scope.addOperator, Scope.addOperand]
  read_addFunction _ _ := rfl
  read_function _ _ _ _ _ := rfl
  read_fresh _ _ _ _ := rfl

/-- The occurrences of an operator. -/
def operator (token : String) : Quantity where
  read scope := scope.operators.count token
  base := 0
  added op := (op.operator?.toList.count token : Nat)
  brought _ := 0
  read_change op scope := by
    cases op with
    | addOperator other =>
      simp [Op.change, Op.operator?, Scope.addOperator, Tally.count_add, List.count_singleton]
    | _ => simp [Op.change, Op.operator?, Scope.addLogical, Scope.addCyclomatic, Scope.addOperand]
  read_addFunction _ _ := (Int.add_zero _).symm
  read_function _ _ _ _ _ := rfl
  read_fresh _ _ _ _ := rfl

/-- The occurrences of an operand. -/
def operand (token : String) : Quantity where
  read scope := scope.operands.count token
  base := 0
  added op := (op.operand?.toList.count token : Nat)
  brought _ := 0
  read_change op scope := by
    cases op with
    | addOperand other =>
      simp [Op.change, Op.operand?, Scope.addOperand, Tally.count_add, List.count_singleton]
    | _ => simp [Op.change, Op.operand?, Scope.addLogical, Scope.addCyclomatic, Scope.addOperator]
  read_addFunction _ _ := (Int.add_zero _).symm
  read_function _ _ _ _ _ := rfl
  read_fresh _ _ _ _ := rfl

/-! ### The module and its parts -/

/-- The module has what the functions have and what was added while none was open. What new
functions bring is in them and in the module. -/
theorem read_module_eq_functions (lines : Lines Int) (ops : List (Op Int String)) :
    q.read ((ScopeTree.start lines).run ops).module = q.base +
      q.ofFunctions ((ScopeTree.start lines).run ops) +
      ((Op.outside .function ops).map q.added).sum := by
  have hmodule := q.read_module_run (.start lines) ops
  have hfunctions := q.ofFunctions_run (ScopeTree.sound_start lines) ops
  have hbase : q.read (ScopeTree.start lines).module = q.base := q.read_fresh _ _ _ _
  have hnone : q.ofFunctions (.start lines) = 0 := rfl
  have hgained : (ops.map q.gained).sum = (ops.map q.added).sum + (ops.map q.opened).sum :=
    List.sum_map_add
  have hsplit := Op.sum_during .function q.added 0 ops
  change q.ofFunctions _ = _ + _ + ((Op.inside .function ops).map q.added).sum at hfunctions
  change _ = ((Op.inside .function ops).map q.added).sum +
    ((Op.outside .function ops).map q.added).sum at hsplit
  omega

/-- The module has what the classes have besides what they start with, and what was added or
brought while no class was open. -/
theorem read_module_eq_classes (lines : Lines Int) (ops : List (Op Int String)) :
    q.read ((ScopeTree.start lines).run ops).module = q.base +
      q.ofClasses ((ScopeTree.start lines).run ops) +
      ((Op.outside .classBody ops).map q.gained).sum := by
  have hmodule := q.read_module_run (.start lines) ops
  have hclasses := q.ofClasses_run (ScopeTree.sound_start lines) ops
  have hbase : q.read (ScopeTree.start lines).module = q.base := q.read_fresh _ _ _ _
  have hnone : q.ofClasses (.start lines) = 0 := rfl
  have hsplit := Op.sum_during .classBody q.gained 0 ops
  change q.ofClasses _ = _ + ((Op.inside .classBody ops).map q.gained).sum at hclasses
  change _ = ((Op.inside .classBody ops).map q.gained).sum +
    ((Op.outside .classBody ops).map q.gained).sum at hsplit
  omega

end Quantity

/-! ### Tokens that are listed

That a token is listed is no number, but it is listed where it occurs at least once.
-/

/-- The tallies of a scope list only tokens that occur. -/
def Scope.Positive (scope : Scope Int String) : Prop :=
  scope.operators.Positive ∧ scope.operands.Positive

/-- What an operation adds occurs. -/
theorem Scope.Positive.change {scope : Scope Int String} (h : scope.Positive)
    (op : ScopeTree.Op Int String) : (op.change scope).Positive := by
  cases op with
  | addOperator token => exact ⟨h.1.add token, h.2⟩
  | addOperand token => exact ⟨h.1, h.2.add token⟩
  | _ => exact h

namespace ScopeTree

/-- All scopes list only tokens that occur. -/
structure Positive (t : ScopeTree Int String) : Prop where
  module : t.module.Positive
  functions : ∀ f ∈ t.functions, f.Positive
  classes : ∀ c ∈ t.classes, c.toScope.Positive

/-- At the start nothing is listed. -/
theorem positive_start (lines : Lines Int) : (start lines).Positive where
  module := ⟨Tally.positive_empty, Tally.positive_empty⟩
  functions f hf := by cases hf
  classes c hc := by cases hc

/-- What holds of all items and is kept by a change holds after the change of one item. -/
theorem forall_mem_modify {α : Type} {P : α → Prop} {f : α → α} (hf : ∀ a, P a → P (f a))
    {l : List α} (h : ∀ a ∈ l, P a) (i : Nat) : ∀ a ∈ l.modify i f, P a := by
  intro a ha
  obtain ⟨k, hk⟩ := List.getElem?_of_mem ha
  rw [List.getElem?_modify] at hk
  obtain ⟨b, hb, rfl⟩ := Option.map_eq_some_iff.mp hk
  have hpb := h b (List.mem_of_getElem? hb)
  split
  · exact hf b hpb
  · exact hpb

/-- An operation lists only tokens that occur. -/
theorem Positive.step {t : ScopeTree Int String} (h : t.Positive) (op : Op Int String) :
    (t.step op).Positive := by
  -- Additions raise counts that were there. Opened scopes begin with empty tallies, and closing
  -- changes no scope.
  rcases t.step_cases op with ⟨hstep, -, -⟩ | ⟨name, lines, params, -, hstep⟩ | ⟨-, hstep⟩ |
    ⟨name, superName, lines, -, hstep⟩ | ⟨-, hstep⟩ | ⟨-, hstep⟩
  · rw [hstep]
    refine ⟨by simpa using h.module.change op, ?_, ?_⟩
    · rw [functions_contribute, modifyFunction]
      split
      · exact h.functions
      · exact forall_mem_modify (fun f hf => hf.change op) h.functions _
    · rw [classes_contribute, modifyClass]
      split
      · exact h.classes
      · exact forall_mem_modify (P := fun c : ClassScope Int String => c.toScope.Positive)
          (fun c hc => hc.change op) h.classes _
  · obtain ⟨own, hfunctions⟩ := functions_push t name lines params
    rw [hstep]
    refine ⟨by rw [module_push]; exact h.module, ?_, ?_⟩
    · rw [hfunctions, List.forall_mem_append]
      exact ⟨h.functions, by simp [Scope.Positive, Tally.positive_empty]⟩
    · rw [classes_push, modifyClass]
      split
      · exact h.classes
      · exact forall_mem_modify (P := fun c : ClassScope Int String => c.toScope.Positive)
          (f := enroll params.length t.depth (t.functions.length + 1)) (fun _ hc => hc) h.classes _
  · rw [hstep]
    exact ⟨h.module, h.functions, h.classes⟩
  · rw [hstep]
    refine ⟨h.module, h.functions, ?_⟩
    show ∀ c ∈ t.classes ++ [_], _
    rw [List.forall_mem_append]
    exact ⟨h.classes, by simp [Scope.Positive, Tally.positive_empty]⟩
  · rw [hstep]
    exact ⟨h.module, h.functions, h.classes⟩
  · rw [hstep]
    exact ⟨h.module, h.functions, h.classes⟩

/-- A sequence of operations lists only tokens that occur. -/
theorem Positive.run {t : ScopeTree Int String} (h : t.Positive) (ops : List (Op Int String)) :
    (t.run ops).Positive := by
  induction ops generalizing t with
  | nil => exact h
  | cons op rest ih => exact ih (h.step op)

end ScopeTree

/-! ### The result -/

/-- A token is listed in a whole if it is listed in a part or is among the others, where the
numbers of occurrences add up. -/
theorem Tally.Positive.mem_identifiers_of_sum {whole : Tally String} (hwhole : whole.Positive)
    (parts : List (Tally String)) (others : List String) (token : String)
    (hparts : ∀ p ∈ parts, p.Positive)
    (hsum : whole.count token = (parts.map (·.count token)).sum + others.count token) :
    token ∈ whole.identifiers ↔ (∃ p ∈ parts, token ∈ p.identifiers) ∨ token ∈ others := by
  rw [hwhole.mem_identifiers_iff, hsum, Nat.add_pos_iff_pos_or_pos, List.count_pos_iff,
    List.sum_pos_iff_exists_pos_nat]
  refine or_congr_left ?_
  constructor
  · rintro ⟨n, hn, hpos⟩
    obtain ⟨p, hp, rfl⟩ := List.mem_map.mp hn
    exact ⟨p, hp, ((hparts p hp).mem_identifiers_iff token).mpr hpos⟩
  · rintro ⟨p, hp, hlisted⟩
    exact ⟨_, List.mem_map_of_mem hp, ((hparts p hp).mem_identifiers_iff token).mp hlisted⟩

/-- A scope counts what its parts count and what some operations add besides. -/
structure Scope.IsSumOf (whole : Scope Int String) (parts : List (Scope Int String))
    (others : List (ScopeTree.Op Int String)) : Prop where
  logical : whole.logical = (parts.map Scope.logical).sum + (others.map ScopeTree.Op.lines).sum
  operators : ∀ token, whole.operators.count token =
    (parts.map fun p => p.operators.count token).sum +
      (others.filterMap ScopeTree.Op.operator?).count token
  operands : ∀ token, whole.operands.count token =
    (parts.map fun p => p.operands.count token).sum +
      (others.filterMap ScopeTree.Op.operand?).count token
  listedOperators : ∀ token, token ∈ whole.operators.identifiers ↔
    (∃ p ∈ parts, token ∈ p.operators.identifiers) ∨
      token ∈ others.filterMap ScopeTree.Op.operator?
  listedOperands : ∀ token, token ∈ whole.operands.identifiers ↔
    (∃ p ∈ parts, token ∈ p.operands.identifiers) ∨
      token ∈ others.filterMap ScopeTree.Op.operand?

namespace ScopeTree

/-- The occurrences of a token among what some operations add, operation by operation. -/
theorem count_filterMap (f : Op Int String → Option String) (token : String)
    (ops : List (Op Int String)) :
    ((ops.filterMap f).count token : Int) =
      (ops.map fun op => ((f op).toList.count token : Int)).sum := by
  induction ops with
  | nil => rfl
  | cons op rest ih =>
    cases hop : f op with
    | none => simp [hop, ih]
    | some other => simp [hop, List.count_cons, ih, Int.add_comm]

/-- Natural numbers add up as whole numbers do. -/
theorem natCast_sum_map {α : Type} (f : α → Nat) (l : List α) :
    ((l.map f).sum : Int) = (l.map fun a => (f a : Int)).sum := by
  induction l with
  | nil => rfl
  | cons a rest ih => simp [ih]

/-- A scope is the sum of its parts if every quantity that comes from additions is. -/
theorem isSumOf_of_quantities {whole : Scope Int String} {parts : List (Scope Int String)}
    {others : List (Op Int String)} (hwhole : whole.Positive) (hparts : ∀ p ∈ parts, p.Positive)
    (h : ∀ q : Quantity, q.base = 0 → q.brought = (fun _ => 0) →
      q.read whole = (parts.map q.read).sum + (others.map q.added).sum) :
    whole.IsSumOf parts others := by
  -- Quantities are integers and counts natural numbers, hence the casts.
  have hoperators : ∀ token, whole.operators.count token =
      (parts.map fun p => p.operators.count token).sum +
        (others.filterMap Op.operator?).count token := by
    intro token
    have hsum : (whole.operators.count token : Int) = _ := h (.operator token) rfl rfl
    have hcount := count_filterMap Op.operator? token others
    have hcast := natCast_sum_map (fun p : Scope Int String => p.operators.count token) parts
    simp only [Quantity.operator] at hsum
    omega
  have hoperands : ∀ token, whole.operands.count token =
      (parts.map fun p => p.operands.count token).sum +
        (others.filterMap Op.operand?).count token := by
    intro token
    have hsum : (whole.operands.count token : Int) = _ := h (.operand token) rfl rfl
    have hcount := count_filterMap Op.operand? token others
    have hcast := natCast_sum_map (fun p : Scope Int String => p.operands.count token) parts
    simp only [Quantity.operand] at hsum
    omega
  refine ⟨h .logical rfl rfl, hoperators, hoperands, fun token => ?_, fun token => ?_⟩
  -- A token is listed if it occurs, and it occurs in the whole if it occurs in some part.
  · have hlisted := hwhole.1.mem_identifiers_of_sum (parts.map Scope.operators)
      (others.filterMap Op.operator?) token
      (by simpa using fun p hp => (hparts p hp).1)
      (by rw [List.map_map]; exact hoperators token)
    simpa using hlisted
  · have hlisted := hwhole.2.mem_identifiers_of_sum (parts.map Scope.operands)
      (others.filterMap Op.operand?) token
      (by simpa using fun p hp => (hparts p hp).2)
      (by rw [List.map_map]; exact hoperands token)
    simpa using hlisted

/-- The module counts what its functions count, what its classes count, and in each case what
was added while none was open. Operations can come in any order, and those that fail change
nothing. A path and the parameters of each function are in the function itself, in the module
and in the class that was innermost when the function was opened. -/
theorem module_conserved (lines : Lines Int) (ops : List (Op Int String)) :
    let t := (start lines).run ops
    let paths := fun op : Op Int String => op.paths + op.pushes
    t.module.IsSumOf t.functions (Op.outside .function ops) ∧
    t.module.cyclomatic - 1 = (t.functions.map Scope.cyclomatic).sum +
      ((Op.outside .function ops).map Op.paths).sum ∧
    t.module.paramCount = (t.functions.map Scope.paramCount).sum ∧
    t.module.IsSumOf (t.classes.map ClassScope.toScope) (Op.outside .classBody ops) ∧
    t.module.cyclomatic - 1 = (t.classes.map fun c => c.cyclomatic - 1).sum +
      ((Op.outside .classBody ops).map paths).sum ∧
    (t.classes.map fun c => c.cyclomatic - 1).sum =
      ((Op.inside .classBody ops).map paths).sum ∧
    t.module.paramCount = (t.classes.map fun c => c.paramCount).sum +
      ((Op.outside .classBody ops).map Op.params).sum := by
  intro t paths
  have hpositive : t.Positive := (positive_start lines).run ops
  -- A function brings one path and its parameters along when it is opened, so the classes gain
  -- these on top of what is added.
  have hpaths : Quantity.cyclomatic.gained = paths := by
    funext op
    cases op <;> rfl
  have hparams : Quantity.paramCount.gained = Op.params := by
    funext op
    cases op <;> simp [Quantity.gained, Quantity.opened, Quantity.paramCount, Op.params]
  refine ⟨?_, ?_, ?_, ?_, ?_, ?_, ?_⟩
  · refine isSumOf_of_quantities hpositive.module hpositive.functions fun q hbase _ => ?_
    have hmodule := q.read_module_eq_functions lines ops
    rw [hbase, Int.zero_add] at hmodule
    exact hmodule
  · have hmodule := Quantity.cyclomatic.read_module_eq_functions lines ops
    change t.module.cyclomatic = 1 + (t.functions.map Scope.cyclomatic).sum +
      ((Op.outside .function ops).map Op.paths).sum at hmodule
    omega
  · have hmodule := Quantity.paramCount.read_module_eq_functions lines ops
    change t.module.paramCount = 0 + (t.functions.map Scope.paramCount).sum +
      ((Op.outside .function ops).map fun _ => 0).sum at hmodule
    rw [List.map_const', List.sum_replicate_int] at hmodule
    omega
  · refine isSumOf_of_quantities hpositive.module (by simpa using hpositive.classes)
      fun q hbase hbrought => ?_
    have hmodule := q.read_module_eq_classes lines ops
    -- These quantities are not brought along, so only what is added counts.
    have hgained : q.gained = q.added := by
      funext op
      cases op <;> simp [Quantity.gained, Quantity.opened, hbrought]
    simp only [Quantity.ofClasses, hbase, Int.zero_add, Int.sub_zero, hgained] at hmodule
    rw [List.map_map]
    exact hmodule
  · have hmodule := Quantity.cyclomatic.read_module_eq_classes lines ops
    rw [hpaths] at hmodule
    change t.module.cyclomatic = 1 + (t.classes.map fun c => c.cyclomatic - 1).sum + _ at hmodule
    omega
  · have hclasses := Quantity.cyclomatic.ofClasses_run (sound_start lines) ops
    rw [hpaths] at hclasses
    exact hclasses.trans (Int.zero_add _)
  · have hmodule := Quantity.paramCount.read_module_eq_classes lines ops
    rw [hparams] at hmodule
    change t.module.paramCount = 0 + (t.classes.map fun c => c.paramCount - 0).sum + _ at hmodule
    simp only [Int.sub_zero, Int.zero_add] at hmodule
    exact hmodule

end ScopeTree

end CodeMetrics
