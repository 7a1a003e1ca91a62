import CodeMetrics.Document
import CodeMetrics.Node
import CodeMetrics.Tally

/-!
# `CodeMetrics.Scope`: the counts of a module, a function or a class

A scope collects counts: logical lines, paths through the code, parameters, operators and
operands. A class also knows its functions.

Lines and paths are counted in numbers of a type `κ`, and tokens are of a type `τ`. For a
tree these are whole numbers and texts.
-/

set_option autoImplicit false

namespace CodeMetrics

/-- The counts of a module, a function or a class. The index is the place among the scopes
of its sort. The parent is the index of the function around it, zero for the module. -/
structure Scope (κ τ : Type) where
  index : Nat
  name : Option Document
  lines : Lines κ
  parent : Option Nat := none
  logical : κ
  cyclomatic : κ
  paramCount : Int := 0
  paramNames : List Document := []
  operators : Tally τ := {}
  operands : Tally τ := {}

namespace Scope

variable {κ τ : Type}

/-- Adds logical lines. -/
def addLogical [Add κ] (n : κ) (s : Scope κ τ) : Scope κ τ :=
  { s with logical := s.logical + n }

/-- Adds paths through the code. -/
def addCyclomatic [Add κ] (n : κ) (s : Scope κ τ) : Scope κ τ :=
  { s with cyclomatic := s.cyclomatic + n }

/-- Adds an occurrence of an operator. -/
def addOperator [BEq τ] (token : τ) (s : Scope κ τ) : Scope κ τ :=
  { s with operators := s.operators.add token }

/-- Adds an occurrence of an operand. -/
def addOperand [BEq τ] (token : τ) (s : Scope κ τ) : Scope κ τ :=
  { s with operands := s.operands.add token }

/-- Accounts for a function with `params` parameters that is opened inside. -/
def addFunction [Add κ] [OfNat κ 1] (params : Nat) (s : Scope κ τ) : Scope κ τ :=
  { s with cyclomatic := s.cyclomatic + 1, paramCount := s.paramCount + params }

/-- Applies a function to all that is counted in `κ`, and another to the tokens. -/
def map {μ σ : Type} (f : κ → μ) (g : τ → σ) (s : Scope κ τ) : Scope μ σ :=
  { index := s.index
    name := s.name
    lines := s.lines.map f
    parent := s.parent
    logical := f s.logical
    cyclomatic := f s.cyclomatic
    paramCount := s.paramCount
    paramNames := s.paramNames
    operators := s.operators.map g
    operands := s.operands.map g }

end Scope

/-- The counts of a class. `depth` is the number of functions that were open when the class
was entered. -/
structure ClassScope (κ τ : Type) extends Scope κ τ where
  superName : Option Document := none
  depth : Nat := 0
  methods : List Nat := []

/-- Applies a function to all that is counted in `κ`, and another to the tokens. -/
def ClassScope.map {κ τ μ σ : Type} (f : κ → μ) (g : τ → σ) (c : ClassScope κ τ) :
    ClassScope μ σ :=
  { c.toScope.map f g with
    superName := c.superName
    depth := c.depth
    methods := c.methods }

end CodeMetrics
