import CodeMetrics.Scope.Tree

/-!
# `CodeMetrics.Scope.Operation`: operations on scopes as data

The operations on a `ScopeTree` as values of a type, so that whole sequences can be run. An
operation that `apply` refuses changes nothing.

Where numbers may be fractions, a sum may have no result. `attempt` adds to one scope after
the other, the module first. A sum without a result ends the addition, and what was added
before stays. If all sums can be formed, this is `contribute` (`spread_eq_contribute`).
-/

set_option autoImplicit false

namespace CodeMetrics

namespace ScopeTree

variable {κ τ : Type}

/-- One operation on a tree of scopes. -/
inductive Op (κ τ : Type) where
  | push (name : Option Document) (lines : Lines κ) (params : List Document)
  | pop
  | openClass (name superName : Option Document) (lines : Lines κ)
  | closeClass
  | addLogical (n : κ)
  | addCyclomatic (n : κ)
  | addOperator (token : τ)
  | addOperand (token : τ)
  | nextAnonymousName

/-- Carries out one operation. -/
def apply [BEq τ] [Add κ] [OfNat κ 0] [OfNat κ 1] (t : ScopeTree κ τ) :
    Op κ τ → Except ScopeError (ScopeTree κ τ)
  | .push name lines params => .ok (t.push name lines params)
  | .pop => t.pop
  | .openClass name superName lines => .ok (t.openClass name superName lines)
  | .closeClass => t.closeClass
  | .addLogical n => .ok (t.addLogical n)
  | .addCyclomatic n => .ok (t.addCyclomatic n)
  | .addOperator token => .ok (t.addOperator token)
  | .addOperand token => .ok (t.addOperand token)
  | .nextAnonymousName => .ok t.nextAnonymousName.2

/-- Carries out one operation, or leaves the tree as it is if the operation fails. -/
def step [BEq τ] [Add κ] [OfNat κ 0] [OfNat κ 1] (t : ScopeTree κ τ) (op : Op κ τ) : ScopeTree κ τ :=
  match t.apply op with
  | .ok t => t
  | .error _ => t

/-- The name of the scope that an operation opens or closes, or the name it takes. `before`
is the tree that the operation is carried out on. -/
def Op.subject [Add κ] [OfNat κ 0] [OfNat κ 1] (before : ScopeTree κ τ) :
    Op κ τ → Option Document
  | .push name lines params => (before.push name lines params).current.name
  | .pop => before.current.name
  | .openClass name _ _ => name
  | .closeClass => before.currentClass?.bind (·.name)
  | .nextAnonymousName => some (.string before.nextAnonymousName.1)
  | _ => none

/-! ### Numbers of any sort -/

/-- Changes the module, the innermost open class and the innermost open function, in this
order, up to the first one that `refuses` the change. Says whether all were changed. -/
def spread (refuses : Scope κ τ → Bool) (f : Scope κ τ → Scope κ τ) (t : ScopeTree κ τ) :
    Bool × ScopeTree κ τ :=
  if refuses t.module then (false, t)
  else
    let t := { t with module := f t.module }
    if t.currentClass?.any fun c => refuses c.toScope then (false, t)
    else
      let t := t.modifyClass fun c => { c with toScope := f c.toScope }
      if t.currentFunction?.any refuses then (false, t)
      else (true, t.modifyFunction f)

/-- A change that no scope refuses is a contribution. -/
theorem spread_eq_contribute (refuses : Scope κ τ → Bool) (f : Scope κ τ → Scope κ τ)
    (t : ScopeTree κ τ) (h : ∀ s, refuses s = false) :
    t.spread refuses f = (true, t.contribute f) := by
  have accepted : ∀ o : Option (Scope κ τ), o.any refuses = false := by
    intro o
    cases o with
    | none => rfl
    | some s => exact h s
  simp [spread, contribute, h, accepted]

/-- Adds a number to every scope that a contribution goes to. Adding zero changes nothing. -/
def addNumber (n : Number) (counted : Scope Number τ → Number)
    (f : Scope Number τ → Scope Number τ) (t : ScopeTree Number τ) :
    Option Error × ScopeTree Number τ :=
  if n.isZero then (none, t)
  else
    let (complete, t) := t.spread (fun s => (counted s).clashes n) f
    (if complete then none else some (.fault (.arithmetic .overflow)), t)

/-- Carries out one operation on numbers of any sort, and says what went wrong. -/
def attempt [BEq τ] (t : ScopeTree Number τ) : Op Number τ → Option Error × ScopeTree Number τ
  | .addLogical n => t.addNumber n (·.logical) (Scope.addLogical n)
  | .addCyclomatic n => t.addNumber n (·.cyclomatic) (Scope.addCyclomatic n)
  | op =>
    match t.apply op with
    | .ok t => (none, t)
    | .error cause => (some (.scope cause), t)

end ScopeTree

end CodeMetrics
