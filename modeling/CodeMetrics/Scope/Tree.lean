import CodeMetrics.Decimal.Text
import CodeMetrics.Error
import CodeMetrics.Scope

/-!
# `CodeMetrics.Scope.Tree`: the scopes of a module

A `ScopeTree` holds the scope of the module, one scope for each function and one for each
class, in the order they were opened, and knows which of them are still open.

Whatever is counted goes to the module, to the innermost open class and to the innermost
open function. Opening a function adds a path and its parameters to the module and to the
innermost open class. That class lists the function as its method if no other function was
opened since the class was.
-/

set_option autoImplicit false

namespace CodeMetrics

/-- The scopes of one module. The open functions and classes are given by their indices,
the innermost first. Functions are numbered from one, since the module is number zero. -/
structure ScopeTree (κ τ : Type) where
  module : Scope κ τ
  functions : List (Scope κ τ) := []
  openFunctions : List Nat := []
  classes : List (ClassScope κ τ) := []
  openClasses : List Nat := []
  anonymous : Nat := 0

namespace ScopeTree

variable {κ τ : Type}

/-- The tree of a module in which nothing is open. -/
def start [OfNat κ 0] [OfNat κ 1] (lines : Lines κ) : ScopeTree κ τ :=
  { module :=
      { index := 0, name := some (.string "<module>"), lines, logical := 0, cyclomatic := 1 } }

/-- The scopes of the module and of all functions, by index. -/
def scopes (t : ScopeTree κ τ) : List (Scope κ τ) :=
  t.module :: t.functions

/-- The number of open functions. -/
def depth (t : ScopeTree κ τ) : Nat :=
  t.openFunctions.length

/-- The index of the innermost open function, zero if none is open. -/
def currentIndex (t : ScopeTree κ τ) : Nat :=
  t.openFunctions.headD 0

/-- The innermost open function. -/
def currentFunction? (t : ScopeTree κ τ) : Option (Scope κ τ) :=
  match t.openFunctions with
  | [] => none
  | i :: _ => t.functions[i - 1]?

/-- The innermost open function, or the module. -/
def current (t : ScopeTree κ τ) : Scope κ τ :=
  t.currentFunction?.getD t.module

/-- The innermost open class. -/
def currentClass? (t : ScopeTree κ τ) : Option (ClassScope κ τ) :=
  match t.openClasses with
  | [] => none
  | i :: _ => t.classes[i]?

/-- Changes the innermost open function. -/
def modifyFunction (f : Scope κ τ → Scope κ τ) (t : ScopeTree κ τ) : ScopeTree κ τ :=
  match t.openFunctions with
  | [] => t
  | i :: _ => { t with functions := t.functions.modify (i - 1) f }

/-- Changes the innermost open class. -/
def modifyClass (f : ClassScope κ τ → ClassScope κ τ) (t : ScopeTree κ τ) : ScopeTree κ τ :=
  match t.openClasses with
  | [] => t
  | i :: _ => { t with classes := t.classes.modify i f }

/-- Changes every scope that a contribution goes to: the module, the innermost open class
and the innermost open function. -/
def contribute (f : Scope κ τ → Scope κ τ) (t : ScopeTree κ τ) : ScopeTree κ τ :=
  let t := { t with module := f t.module }
  let t := t.modifyClass fun c => { c with toScope := f c.toScope }
  t.modifyFunction f

/-- The scopes that a contribution goes to, each with the word for its sort. -/
def targets (t : ScopeTree κ τ) : List (String × Scope κ τ) :=
  ("module", t.module) ::
    ((t.currentClass?.map fun c => ("class", c.toScope)).toList ++
      (t.currentFunction?.map fun f => ("function", f)).toList)

/-- Adds logical lines. -/
def addLogical [Add κ] (n : κ) (t : ScopeTree κ τ) : ScopeTree κ τ :=
  t.contribute (Scope.addLogical n)

/-- Adds paths through the code. -/
def addCyclomatic [Add κ] (n : κ) (t : ScopeTree κ τ) : ScopeTree κ τ :=
  t.contribute (Scope.addCyclomatic n)

/-- Adds an occurrence of an operator. -/
def addOperator [BEq τ] (t : ScopeTree κ τ) (token : τ) : ScopeTree κ τ :=
  t.contribute (Scope.addOperator token)

/-- Adds an occurrence of an operand. -/
def addOperand [BEq τ] (t : ScopeTree κ τ) (token : τ) : ScopeTree κ τ :=
  t.contribute (Scope.addOperand token)

/-- The name of the anonymous function with the given number. -/
def anonymousName (n : Nat) : String :=
  "<anon method-" ++ Decimal.natText n ++ ">"

/-- Takes the next name for an anonymous function. -/
def nextAnonymousName (t : ScopeTree κ τ) : String × ScopeTree κ τ :=
  (anonymousName (t.anonymous + 1), { t with anonymous := t.anonymous + 1 })

/-- Opens a function. Without a name it takes the next anonymous one. -/
def push [Add κ] [OfNat κ 0] [OfNat κ 1] (t : ScopeTree κ τ) (name : Option Document)
    (lines : Lines κ) (params : List Document) : ScopeTree κ τ :=
  let (name, t) := match name with
    | some name => (name, t)
    | none => let (text, t) := t.nextAnonymousName; (.string text, t)
  let index := t.functions.length + 1
  let depth := t.depth
  let scope : Scope κ τ :=
    { index, name := some name, lines
      parent := some t.currentIndex
      logical := 0
      cyclomatic := 1
      paramCount := params.length
      paramNames := params }
  let t := t.modifyClass fun (c : ClassScope κ τ) =>
    { c with
      toScope := c.toScope.addFunction params.length
      methods := if c.depth = depth then c.methods ++ [index] else c.methods }
  { t with
    module := t.module.addFunction params.length
    functions := t.functions ++ [scope]
    openFunctions := index :: t.openFunctions }

/-- Closes the innermost open function. -/
def pop (t : ScopeTree κ τ) : Except ScopeError (ScopeTree κ τ) :=
  match t.openFunctions with
  | [] => .error .noOpenFunction
  | _ :: rest => .ok { t with openFunctions := rest }

/-- Opens a class. -/
def openClass [OfNat κ 0] [OfNat κ 1] (t : ScopeTree κ τ) (name superName : Option Document)
    (lines : Lines κ) : ScopeTree κ τ :=
  let index := t.classes.length
  let scope : ClassScope κ τ :=
    { index, name, lines
      parent := some t.currentIndex
      logical := 0
      cyclomatic := 1
      superName
      depth := t.depth }
  { t with
    classes := t.classes ++ [scope]
    openClasses := index :: t.openClasses }

/-- Closes the innermost open class. -/
def closeClass (t : ScopeTree κ τ) : Except ScopeError (ScopeTree κ τ) :=
  match t.openClasses with
  | [] => .error .noOpenClass
  | _ :: rest => .ok { t with openClasses := rest }

/-- Applies a function to all that is counted in `κ`, and another to the tokens. -/
def map {μ σ : Type} (f : κ → μ) (g : τ → σ) (t : ScopeTree κ τ) : ScopeTree μ σ :=
  { module := t.module.map f g
    functions := t.functions.map (·.map f g)
    openFunctions := t.openFunctions
    classes := t.classes.map (·.map f g)
    openClasses := t.openClasses
    anonymous := t.anonymous }

end ScopeTree

end CodeMetrics
