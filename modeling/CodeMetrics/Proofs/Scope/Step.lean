import CodeMetrics.Proofs.Traversal.Journal

/-!
# `CodeMetrics.Proofs.Scope.Step`: what one errand does to the scopes

An errand changes the scopes of a walk in one of five ways, and `perform_cases` lists them.
A visit adds what the node contributes to the module, the innermost open class and the
innermost open function. The contribution is made of many single additions, but they all go
to the same scopes, so they are one (`tree_record`). The other errands open or close a
function or a class.

The lemmas about the scopes after a run start from `perform_cases` and do not look into the
steps again.
-/

set_option autoImplicit false

namespace CodeMetrics

/-! ### Contributions as one change -/

/-- What a node adds if nothing can be read there. -/
def Contribution.nothing : Contribution :=
  { lloc := 0, cyclomatic := 0, operators := [], operands := [], dependency := none, ignored := [] }

/-- What the node at a place adds. A node of an unknown kind adds nothing. -/
def Dialect.contribution (d : Dialect) (s : Settings) (p : Placed) : Contribution :=
  match d.ruleFor p.node with
  | none => .nothing
  | some rule => (rule.read s p).toOption.getD .nothing

/-- A node of an unknown kind adds nothing. -/
theorem Dialect.contribution_of_unknown {d : Dialect} {s : Settings} {p : Placed}
    (unknown : d.ruleFor p.node = none) : d.contribution s p = .nothing := by
  simp only [contribution, unknown]

/-- A node with a rule adds what the rule reads there. -/
theorem Dialect.contribution_of_read {d : Dialect} {s : Settings} {p : Placed} {rule : Rule}
    {c : Contribution} (known : d.ruleFor p.node = some rule) (read : rule.read s p = .ok c) :
    d.contribution s p = c := by
  simp only [contribution, known, read, Except.toOption, Option.getD_some]

/-- Adds a contribution to a scope. -/
def Scope.absorb (c : Contribution) (scope : Scope Int String) : Scope Int String :=
  { scope with
    logical := scope.logical + c.lloc
    cyclomatic := scope.cyclomatic + c.cyclomatic
    operators := c.operators.foldl Tally.add scope.operators
    operands := c.operands.foldl Tally.add scope.operands }

/-- Adding nothing changes nothing. -/
theorem Scope.absorb_nothing : Scope.absorb .nothing = id := by
  funext scope
  simp [absorb, Contribution.nothing]

namespace ScopeTree

variable {κ τ : Type}

/-- Changing the innermost open function adds none and removes none. -/
@[simp] theorem length_modifyFunction (t : ScopeTree κ τ) (f : Scope κ τ → Scope κ τ) :
    (t.modifyFunction f).functions.length = t.functions.length := by
  unfold modifyFunction
  split <;> simp

/-- Changing the innermost open class adds none and removes none. -/
@[simp] theorem length_modifyClass (t : ScopeTree κ τ)
    (f : ClassScope κ τ → ClassScope κ τ) :
    (t.modifyClass f).classes.length = t.classes.length := by
  unfold modifyClass
  split <;> simp

/-- The functions after changing the innermost open one. Function `i` is at position `i - 1`,
since the module is number zero. -/
theorem getElem?_modifyFunction (t : ScopeTree κ τ) (f : Scope κ τ → Scope κ τ)
    (hpos : ∀ i ∈ t.openFunctions, 0 < i) (k : Nat) :
    (t.modifyFunction f).functions[k]? = (t.functions[k]?).map fun scope =>
      if t.openFunctions.head? = some (1 + k) then f scope else scope := by
  unfold modifyFunction
  split
  · rename_i hopen
    simp [hopen]
  · rename_i i rest hopen
    have hi : 0 < i := hpos i (by rw [hopen]; exact List.mem_cons_self)
    have hat : i - 1 = k ↔ i = 1 + k := by omega
    simp [hopen, List.getElem?_modify, hat]

/-- The classes after changing the innermost open one. -/
theorem getElem?_modifyClass (t : ScopeTree κ τ) (f : ClassScope κ τ → ClassScope κ τ)
    (k : Nat) :
    (t.modifyClass f).classes[k]? = (t.classes[k]?).map fun c =>
      if t.openClasses.head? = some k then f c else c := by
  unfold modifyClass
  split
  · rename_i hopen
    simp [hopen]
  · rename_i i rest hopen
    simp [hopen, List.getElem?_modify]

/-- Contributing changes the module. -/
@[simp] theorem module_contribute (t : ScopeTree κ τ) (f : Scope κ τ → Scope κ τ) :
    (t.contribute f).module = f t.module := by
  cases t with
  | mk module functions openFunctions classes openClasses anonymous =>
    cases openFunctions <;> cases openClasses <;> rfl

/-- Contributing changes the innermost open function. -/
@[simp] theorem functions_contribute (t : ScopeTree κ τ) (f : Scope κ τ → Scope κ τ) :
    (t.contribute f).functions = (t.modifyFunction f).functions := by
  cases t with
  | mk module functions openFunctions classes openClasses anonymous =>
    cases openFunctions <;> cases openClasses <;> rfl

/-- Contributing changes the innermost open class. -/
@[simp] theorem classes_contribute (t : ScopeTree κ τ) (f : Scope κ τ → Scope κ τ) :
    (t.contribute f).classes =
      (t.modifyClass fun c => { c with toScope := f c.toScope }).classes := by
  cases t with
  | mk module functions openFunctions classes openClasses anonymous =>
    cases openFunctions <;> cases openClasses <;> rfl

/-- Contributing opens and closes no function. -/
@[simp] theorem openFunctions_contribute (t : ScopeTree κ τ) (f : Scope κ τ → Scope κ τ) :
    (t.contribute f).openFunctions = t.openFunctions := by
  cases t with
  | mk module functions openFunctions classes openClasses anonymous =>
    cases openFunctions <;> cases openClasses <;> rfl

/-- Contributing opens and closes no class. -/
@[simp] theorem openClasses_contribute (t : ScopeTree κ τ) (f : Scope κ τ → Scope κ τ) :
    (t.contribute f).openClasses = t.openClasses := by
  cases t with
  | mk module functions openFunctions classes openClasses anonymous =>
    cases openFunctions <;> cases openClasses <;> rfl

/-- Contributing takes no anonymous name. -/
@[simp] theorem anonymous_contribute (t : ScopeTree κ τ) (f : Scope κ τ → Scope κ τ) :
    (t.contribute f).anonymous = t.anonymous := by
  cases t with
  | mk module functions openFunctions classes openClasses anonymous =>
    cases openFunctions <;> cases openClasses <;> rfl

/-- Contributing twice is contributing once. -/
theorem contribute_contribute (t : ScopeTree κ τ) (f g : Scope κ τ → Scope κ τ) :
    (t.contribute f).contribute g = t.contribute (g ∘ f) := by
  cases t with
  | mk module functions openFunctions classes openClasses anonymous =>
    cases openFunctions <;> cases openClasses <;>
      simp [contribute, modifyClass, modifyFunction, List.modify_modify_eq, Function.comp_def]

/-- Contributing nothing changes nothing. -/
theorem contribute_id (t : ScopeTree κ τ) : t.contribute id = t := by
  cases t with
  | mk module functions openFunctions classes openClasses anonymous =>
    cases openFunctions <;> cases openClasses <;> simp [contribute, modifyClass, modifyFunction]
    -- What is left is the change of a class into itself.
    all_goals exact List.modify_id _ _

/-! ### Opening and closing -/

/-- What a class notes when a function is opened inside. -/
def enroll [Add κ] [OfNat κ 1] (params depth index : Nat) (c : ClassScope κ τ) :
    ClassScope κ τ :=
  { c with
    toScope := c.toScope.addFunction params
    methods := if c.depth = depth then c.methods ++ [index] else c.methods }

section

variable [Add κ] [OfNat κ 0] [OfNat κ 1]
variable (t : ScopeTree κ τ) (name : Option Document) (lines : Lines κ) (params : List Document)

/-- Opening a function changes the module. -/
@[simp] theorem module_push :
    (t.push name lines params).module = t.module.addFunction params.length := by
  cases t with
  | mk module functions openFunctions classes openClasses anonymous =>
    cases name <;> cases openClasses <;> rfl

/-- A new function comes after the others. Nothing is counted for it yet. -/
theorem functions_push :
    ∃ own, (t.push name lines params).functions = t.functions ++
      [{ index := t.functions.length + 1, name := own, lines, parent := some t.currentIndex,
         logical := 0, cyclomatic := 1, paramCount := params.length, paramNames := params }] := by
  cases t with
  | mk module functions openFunctions classes openClasses anonymous =>
    cases name <;> cases openClasses <;> exact ⟨_, rfl⟩

/-- A new function is the innermost open one. -/
@[simp] theorem openFunctions_push :
    (t.push name lines params).openFunctions = (t.functions.length + 1) :: t.openFunctions := by
  cases t with
  | mk module functions openFunctions classes openClasses anonymous =>
    cases name <;> cases openClasses <;> rfl

/-- The innermost open class notes a new function. -/
@[simp] theorem classes_push :
    (t.push name lines params).classes =
      (t.modifyClass (enroll params.length t.depth (t.functions.length + 1))).classes := by
  cases t with
  | mk module functions openFunctions classes openClasses anonymous =>
    cases name <;> cases openClasses <;> rfl

/-- Opening a function opens and closes no class. -/
@[simp] theorem openClasses_push : (t.push name lines params).openClasses = t.openClasses := by
  cases t with
  | mk module functions openFunctions classes openClasses anonymous =>
    cases name <;> cases openClasses <;> rfl

end

/-- Closing a function takes the innermost one off the list of open functions. -/
theorem pop_eq_ok {t after : ScopeTree κ τ} (h : t.pop = .ok after) :
    after = { t with openFunctions := t.openFunctions.tail } := by
  unfold pop at h
  split at h
  · cases h
  · rename_i hopen
    cases h
    rw [hopen, List.tail_cons]

/-- Closing a class takes the innermost one off the list of open classes. -/
theorem closeClass_eq_ok {t after : ScopeTree κ τ} (h : t.closeClass = .ok after) :
    after = { t with openClasses := t.openClasses.tail } := by
  unfold closeClass at h
  split at h
  · cases h
  · rename_i hopen
    cases h
    rw [hopen, List.tail_cons]

end ScopeTree

/-! ### A node contributes at once -/

namespace ScopeTree

variable {κ τ : Type}

/-- Contributing several things one after the other is contributing all of them. -/
theorem foldl_contribute {α : Type} (f : α → Scope κ τ → Scope κ τ) (xs : List α)
    (t : ScopeTree κ τ) :
    xs.foldl (fun t x => t.contribute (f x)) t =
      t.contribute fun scope => xs.foldl (fun scope x => f x scope) scope := by
  induction xs generalizing t with
  | nil => exact (contribute_id t).symm
  | cons x rest ih =>
    rw [List.foldl_cons, ih, contribute_contribute]
    rfl

end ScopeTree

/-- Adding operators one after the other fills the tally of operators. -/
theorem Scope.foldl_addOperator (tokens : List String) (scope : Scope Int String) :
    tokens.foldl (fun scope token => scope.addOperator token) scope =
      { scope with operators := tokens.foldl Tally.add scope.operators } := by
  induction tokens generalizing scope with
  | nil => rfl
  | cons token rest ih =>
    rw [List.foldl_cons, ih]
    rfl

/-- Adding operands one after the other fills the tally of operands. -/
theorem Scope.foldl_addOperand (tokens : List String) (scope : Scope Int String) :
    tokens.foldl (fun scope token => scope.addOperand token) scope =
      { scope with operands := tokens.foldl Tally.add scope.operands } := by
  induction tokens generalizing scope with
  | nil => rfl
  | cons token rest ih =>
    rw [List.foldl_cons, ih]
    rfl

/-- Recording a contribution is one change of the open scopes. -/
theorem Walk.tree_record (w : Walk) (s : Settings) (c : Contribution) :
    (w.record s c).tree = w.tree.contribute (Scope.absorb c) := by
  show c.operands.foldl (fun t token => t.contribute (Scope.addOperand token))
    (c.operators.foldl (fun t token => t.contribute (Scope.addOperator token))
      ((w.tree.contribute _).contribute _)) = _
  -- All four go to the same scopes, so it is enough to compare what they do to one scope.
  simp only [ScopeTree.foldl_contribute, ScopeTree.contribute_contribute]
  congr 1
  funext scope
  simp only [Function.comp_apply, Scope.foldl_addOperator, Scope.foldl_addOperand]
  rfl

/-! ### The five changes -/

namespace Walk

variable {d : Dialect} {s : Settings}

/-- Meeting a node of an unknown kind changes nothing but what has been reported. -/
theorem exists_of_meetUnknown {w after : Walk} {node : Document}
    (h : w.meetUnknown d s node = .ok after) :
    ∃ errors unsupported, after = { w with errors := errors, unsupported := unsupported } := by
  unfold meetUnknown at h
  cases hkind : unknownKind d node with
  | error fault =>
    rw [hkind] at h
    cases h
  | ok error =>
    rw [hkind] at h
    simp only [Except.mapError, bind, Except.bind] at h
    split at h
    · cases h
    · split at h
      · cases h
        exact ⟨_, _, rfl⟩
      · cases h
        exact ⟨_, _, rfl⟩

/-- The scopes after a visit. -/
theorem tree_of_visit {w after : Walk} {o : Occurrence}
    (h : w.perform d s (.visit o.place) = .ok after) :
    after.tree = w.tree.contribute (Scope.absorb (d.contribution s o.place)) := by
  simp only [perform] at h
  cases hrule : d.ruleFor o.place.node with
  | none =>
    simp only [hrule] at h
    rw [Dialect.contribution_of_unknown hrule, Scope.absorb_nothing, ScopeTree.contribute_id]
    obtain ⟨errors, unsupported, rfl⟩ := exists_of_meetUnknown h
    rfl
  | some rule =>
    simp only [hrule] at h
    cases hread : rule.read s o.place with
    | error fault =>
      rw [hread] at h
      cases h
    | ok c =>
      rw [hread] at h
      cases h
      rw [Dialect.contribution_of_read hrule hread]
      exact tree_record w s c

/-- The scopes after opening one. The name and the lines of the scope depend on the node and
on the scopes that are open. -/
theorem tree_of_openScope {w after : Walk} {p : Placed} {rule : Rule} {form : ScopeForm}
    (h : w.openScope p rule form = .ok after) :
    ∃ name lines,
      after.tree = match form with
        | .classBody => w.tree.openClass name (p.node.get "superClass").name? lines
        | .function => w.tree.push name lines (p.node.parameters.map Document.parameterName) := by
  unfold openScope at h
  cases hlines : p.node.lines? with
  | error fault =>
    rw [hlines] at h
    cases h
  | ok lines =>
    rw [hlines] at h
    cases form with
    | classBody =>
      cases h
      exact ⟨_, _, rfl⟩
    | function =>
      cases h
      exact ⟨_, _, rfl⟩

/-- The scopes after closing one. -/
theorem tree_of_closeScope {w after : Walk} {form : ScopeForm}
    (h : w.closeScope form = .ok after) :
    (match form with
      | .classBody => w.tree.closeClass
      | .function => w.tree.pop) = .ok after.tree := by
  unfold closeScope at h
  cases form with
  | classBody =>
    cases hclose : w.tree.closeClass with
    | error cause =>
      simp only [hclose] at h
      cases h
    | ok tree =>
      simp only [hclose] at h
      cases h
      rfl
  | function =>
    cases hclose : w.tree.pop with
    | error cause =>
      simp only [hclose] at h
      cases h
    | ok tree =>
      simp only [hclose] at h
      cases h
      rfl

/-- The five things that an errand can do to the scopes. -/
theorem perform_cases {w after : Walk} {e : Errand} (h : w.perform d s e.task = .ok after) :
    (∃ o, e = .visit o ∧
      after.tree = w.tree.contribute (Scope.absorb (d.contribution s o.place))) ∨
    (∃ o rule name lines, e = .openScope o rule .function ∧
      after.tree =
        w.tree.push name lines (o.place.node.parameters.map Document.parameterName)) ∨
    (∃ o rule name superName lines, e = .openScope o rule .classBody ∧
      after.tree = w.tree.openClass name superName lines) ∨
    (∃ o, e = .closeScope o .function ∧ w.tree.pop = .ok after.tree) ∨
    (∃ o, e = .closeScope o .classBody ∧ w.tree.closeClass = .ok after.tree) := by
  cases e with
  | visit o => exact Or.inl ⟨o, rfl, tree_of_visit h⟩
  | openScope o rule form =>
    obtain ⟨name, lines, htree⟩ := tree_of_openScope h
    cases form with
    | function => exact Or.inr (Or.inl ⟨o, rule, name, lines, rfl, htree⟩)
    | classBody => exact Or.inr (Or.inr (Or.inl ⟨o, rule, name, _, lines, rfl, htree⟩))
  | closeScope o form =>
    have htree := tree_of_closeScope h
    cases form with
    | function => exact Or.inr (Or.inr (Or.inr (Or.inl ⟨o, rfl, htree⟩)))
    | classBody => exact Or.inr (Or.inr (Or.inr (Or.inr ⟨o, rfl, htree⟩)))

end Walk

end CodeMetrics
