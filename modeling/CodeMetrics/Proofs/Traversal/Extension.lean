import CodeMetrics.Proofs.Scope.Conservation
import CodeMetrics.Proofs.Traversal.Yield

/-!
# `CodeMetrics.Proofs.Traversal.Extension`: a traversal extends a walk by the yield of the tree

`ScopeTree.extend` adds a yield to the scopes that are open and puts the functions and classes
of the yield behind those that are there, with the numbers that come next. Traversing a tree
does exactly that with the yield of the tree (`Walk.traverse_eq_extend`),

    w.traverse d s p = w.extend <$> d.harvest s w.tree.current.lines p

so a traversal fails where the harvest fails, and with the same error.

The proof needs three laws of `ScopeTree.extend`: two yields one after the other
(`extend_append`), a yield inside a function (`extend_inFunction`) and one inside a class
(`extend_inClass`).
-/

set_option autoImplicit false

namespace CodeMetrics

/-! ### Gains in a scope -/

namespace Scope

/-- Adds a gain to a scope. -/
def collect (g : Gain) (scope : Scope Int String) : Scope Int String :=
  { scope with
    logical := scope.logical + g.lines
    cyclomatic := scope.cyclomatic + g.paths
    paramCount := scope.paramCount + g.params
    operators := g.operators.foldl Tally.add scope.operators
    operands := g.operands.foldl Tally.add scope.operands }

/-- No gain changes nothing. -/
@[simp] theorem collect_zero (scope : Scope Int String) : scope.collect 0 = scope := by
  simp [collect]

/-- Two gains come one after the other. -/
theorem collect_add (g h : Gain) (scope : Scope Int String) :
    scope.collect (g + h) = (scope.collect g).collect h := by
  simp [collect, Int.add_assoc]

/-- A contribution is a gain. -/
theorem absorb_eq_collect (c : Contribution) : Scope.absorb c = collect (.ofContribution c) := by
  funext scope
  simp [absorb, collect, Gain.ofContribution]

/-- A function that is opened inside brings a gain. -/
theorem addFunction_eq_collect (params : Nat) (scope : Scope Int String) :
    scope.addFunction params = scope.collect (.ofFunction params) := by
  simp [addFunction, collect, Gain.ofFunction]

end Scope

/-! ### The scopes of a yield -/

/-- The scope of a function. `base` functions come before those of the yield, and the function
around the tree has the index `current`. -/
def FunctionYield.scope (base current index anonymous : Nat) (f : FunctionYield Gain) :
    Scope Int String :=
  Scope.collect f.gain
    { index := index + 1
      name := some (f.name.getD (.string (ScopeTree.anonymousName (anonymous + 1))))
      lines := f.lines
      parent := some (f.parent.elim current (base + · + 1))
      logical := 0
      cyclomatic := 1
      paramCount := f.params.length
      paramNames := f.params }

/-- The scope of a class, where `depth` functions are open around the tree. -/
def ClassYield.scope (base current depth index : Nat) (c : ClassYield Gain) :
    ClassScope Int String :=
  { Scope.collect c.gain
      { index
        name := c.name
        lines := c.lines
        parent := some (c.parent.elim current (base + · + 1))
        logical := 0
        cyclomatic := 1 } with
    superName := c.superName
    depth := depth + c.depth
    methods := c.methods.map (base + · + 1) }

/-- How many of some functions have no name of their own. -/
def FunctionYield.unnamed (fs : List (FunctionYield Gain)) : Nat :=
  fs.countP (·.name.isNone)

/-- The scopes of some functions in a row. -/
def FunctionYield.scopes (base current : Nat) : Nat → Nat → List (FunctionYield Gain) →
    List (Scope Int String)
  | _, _, [] => []
  | index, anonymous, f :: rest =>
    f.scope base current index anonymous ::
      scopes base current (index + 1) (anonymous + unnamed [f]) rest

/-- The scopes of some classes in a row. -/
def ClassYield.scopes (base current depth : Nat) : Nat → List (ClassYield Gain) →
    List (ClassScope Int String)
  | _, [] => []
  | index, c :: rest =>
    c.scope base current depth index :: scopes base current depth (index + 1) rest

namespace FunctionYield

@[simp] theorem unnamed_nil : unnamed [] = 0 := rfl

theorem unnamed_cons (f : FunctionYield Gain) (rest : List (FunctionYield Gain)) :
    unnamed (f :: rest) = unnamed [f] + unnamed rest := by
  simp only [unnamed, List.countP_cons, List.countP_nil]
  omega

@[simp] theorem unnamed_append (fs gs : List (FunctionYield Gain)) :
    unnamed (fs ++ gs) = unnamed fs + unnamed gs := by
  simp [unnamed]

@[simp] theorem unnamed_map_shift (n : Nat) (fs : List (FunctionYield Gain)) :
    unnamed (fs.map (shift n)) = unnamed fs := by
  simp [unnamed, List.countP_map, Function.comp_def, shift]

@[simp] theorem unnamed_map_nested (fs : List (FunctionYield Gain)) :
    unnamed (fs.map nested) = unnamed fs := by
  simp [unnamed, List.countP_map, Function.comp_def, nested]

/-- Each function has a scope. -/
@[simp] theorem length_scopes (base current index anonymous : Nat)
    (fs : List (FunctionYield Gain)) :
    (scopes base current index anonymous fs).length = fs.length := by
  induction fs generalizing index anonymous with
  | nil => rfl
  | cons f rest ih => simp [scopes, ih]

/-- The scopes of more functions come behind. -/
theorem scopes_append (base current index anonymous : Nat) (fs gs : List (FunctionYield Gain)) :
    scopes base current index anonymous (fs ++ gs) =
      scopes base current index anonymous fs ++
        scopes base current (index + fs.length) (anonymous + unnamed fs) gs := by
  induction fs generalizing index anonymous with
  | nil => rfl
  | cons f rest ih =>
    have hindex : index + 1 + rest.length = index + (f :: rest).length := by
      rw [List.length_cons]
      omega
    have hunnamed : anonymous + unnamed [f] + unnamed rest = anonymous + unnamed (f :: rest) := by
      rw [unnamed_cons f rest]
      omega
    rw [List.cons_append, scopes, ih, scopes, List.cons_append, hindex, hunnamed]

/-- Functions behind `n` others have `n` more before them. -/
theorem scopes_map_shift (base current n index anonymous : Nat) (fs : List (FunctionYield Gain)) :
    scopes base current index anonymous (fs.map (shift n)) =
      scopes (base + n) current index anonymous fs := by
  induction fs generalizing index anonymous with
  | nil => rfl
  | cons f rest ih =>
    have hhead : (f.shift n).scope base current index anonymous =
        f.scope (base + n) current index anonymous := by
      cases hparent : f.parent with
      | none => simp [scope, shift, hparent]
      | some i =>
        have hi : base + (i + n) + 1 = base + n + i + 1 := by omega
        simp [scope, shift, hparent, hi]
    rw [List.map_cons, scopes, scopes, ih, hhead]
    rfl

/-- Functions inside of another one have it before them and around them. -/
theorem scopes_map_nested (base current index anonymous : Nat) (fs : List (FunctionYield Gain)) :
    scopes base current index anonymous (fs.map nested) =
      scopes (base + 1) (base + 1) index anonymous fs := by
  induction fs generalizing index anonymous with
  | nil => rfl
  | cons f rest ih =>
    have hhead : f.nested.scope base current index anonymous =
        f.scope (base + 1) (base + 1) index anonymous := by
      cases hparent : f.parent with
      | none => simp [scope, nested, hparent]
      | some i =>
        have hi : base + (i + 1) + 1 = base + 1 + i + 1 := by omega
        simp [scope, nested, hparent, hi]
    rw [List.map_cons, scopes, scopes, ih, hhead]
    rfl

/-- The scope of a function stands for one of the functions of a yield. -/
theorem exists_of_mem_scopes {base current index anonymous : Nat}
    {fs : List (FunctionYield Gain)} {scope : Scope Int String}
    (h : scope ∈ scopes base current index anonymous fs) :
    ∃ f ∈ fs, ∃ index anonymous, scope = f.scope base current index anonymous := by
  induction fs generalizing index anonymous with
  | nil => cases h
  | cons f rest ih =>
    rcases List.mem_cons.mp h with rfl | h
    · exact ⟨f, List.mem_cons_self, index, anonymous, rfl⟩
    · obtain ⟨g, hg, place⟩ := ih h
      exact ⟨g, List.mem_cons_of_mem _ hg, place⟩

end FunctionYield

namespace ClassYield

/-- Each class has a scope. -/
@[simp] theorem length_scopes (base current depth index : Nat) (cs : List (ClassYield Gain)) :
    (scopes base current depth index cs).length = cs.length := by
  induction cs generalizing index with
  | nil => rfl
  | cons c rest ih => simp [scopes, ih]

/-- The scopes of more classes come behind. -/
theorem scopes_append (base current depth index : Nat) (cs ds : List (ClassYield Gain)) :
    scopes base current depth index (cs ++ ds) =
      scopes base current depth index cs ++
        scopes base current depth (index + cs.length) ds := by
  induction cs generalizing index with
  | nil => rfl
  | cons c rest ih =>
    have hindex : index + 1 + rest.length = index + (c :: rest).length := by
      rw [List.length_cons]
      omega
    rw [List.cons_append, scopes, ih, scopes, List.cons_append, hindex]

/-- Classes behind `n` functions have `n` more before them. -/
theorem scopes_map_shift (base current depth n index : Nat) (cs : List (ClassYield Gain)) :
    scopes base current depth index (cs.map (shift n)) =
      scopes (base + n) current depth index cs := by
  induction cs generalizing index with
  | nil => rfl
  | cons c rest ih =>
    have hi : ∀ i, base + (i + n) + 1 = base + n + i + 1 := fun i => by omega
    have hhead : (c.shift n).scope base current depth index =
        c.scope (base + n) current depth index := by
      cases hparent : c.parent <;> simp [scope, shift, hparent, hi]
    rw [List.map_cons, scopes, scopes, ih, hhead]

/-- Classes inside of a function have it before them and around them. -/
theorem scopes_map_nested (base current depth index : Nat) (cs : List (ClassYield Gain)) :
    scopes base current depth index (cs.map nested) =
      scopes (base + 1) (base + 1) (depth + 1) index cs := by
  induction cs generalizing index with
  | nil => rfl
  | cons c rest ih =>
    have hi : ∀ i, base + (i + 1) + 1 = base + 1 + i + 1 := fun i => by omega
    have hdepth : depth + (c.depth + 1) = depth + 1 + c.depth := by omega
    have hhead : c.nested.scope base current depth index =
        c.scope (base + 1) (base + 1) (depth + 1) index := by
      cases hparent : c.parent <;> simp [scope, nested, hparent, hi, hdepth]
    rw [List.map_cons, scopes, scopes, ih, hhead]

/-- The scope of a class stands for one of the classes of a yield. -/
theorem exists_of_mem_scopes {base current depth index : Nat}
    {cs : List (ClassYield Gain)} {scope : ClassScope Int String}
    (h : scope ∈ scopes base current depth index cs) :
    ∃ c ∈ cs, ∃ index, scope = c.scope base current depth index := by
  induction cs generalizing index with
  | nil => cases h
  | cons c rest ih =>
    rcases List.mem_cons.mp h with rfl | h
    · exact ⟨c, List.mem_cons_self, index, rfl⟩
    · obtain ⟨e, he, place⟩ := ih h
      exact ⟨e, List.mem_cons_of_mem _ he, place⟩

end ClassYield

/-! ### Extending the scopes -/

attribute [ext] ScopeTree

namespace ScopeTree

/-- What the class around a tree gets: its part of the yield, and the methods among the
functions, if the tree stands in no other function of the class. -/
def collectClass (base depth : Nat) (y : Yield Gain) (c : ClassScope Int String) :
    ClassScope Int String :=
  { c with
    toScope := c.toScope.collect y.member
    methods := if c.depth = depth then c.methods ++ y.methods.map (base + · + 1) else c.methods }

/-- The scopes after traversing a tree, from what the tree yields. -/
def extend (t : ScopeTree Int String) (y : Yield Gain) : ScopeTree Int String :=
  let base := t.functions.length
  { module := t.module.collect y.total
    functions := (t.modifyFunction (Scope.collect y.own)).functions ++
      FunctionYield.scopes base t.currentIndex base t.anonymous y.functions
    openFunctions := t.openFunctions
    classes := (t.modifyClass (collectClass base t.depth y)).classes ++
      ClassYield.scopes base t.currentIndex t.depth t.classes.length y.classes
    openClasses := t.openClasses
    anonymous := t.anonymous + FunctionYield.unnamed y.functions }

/-- The open scopes are among the scopes, and no class is deeper than the functions that are
open. -/
structure Valid (t : ScopeTree Int String) : Prop extends t.Sound where
  depths : ∀ i ∈ t.openClasses, ∀ c, t.classes[i]? = some c → c.depth ≤ t.depth

/-- Nothing is open at the start. -/
theorem valid_start (lines : Lines Int) : (start lines : ScopeTree Int String).Valid where
  toSound := sound_start lines
  depths i hi := by cases hi

/-- Changing an item of the first of two lists leaves the second as it is. -/
theorem modify_append_of_lt {α : Type} (f : α → α) {l : List α} {i : Nat} (h : i < l.length)
    (rest : List α) : (l ++ rest).modify i f = l.modify i f ++ rest := by
  induction l generalizing i with
  | nil => cases h
  | cons a l ih =>
    cases i with
    | zero => rfl
    | succ i => simp [ih (Nat.lt_of_succ_lt_succ h)]

/-- The item behind a list can be changed. -/
theorem modify_append_length {α : Type} (f : α → α) (l : List α) (a : α) :
    (l ++ [a]).modify l.length f = l ++ [f a] := by
  induction l with
  | nil => rfl
  | cons b l ih => simpa using ih

/-- Changes the item at a place, if there is a place. -/
def modifyAt {α : Type} (place : Option Nat) (f : α → α) (l : List α) : List α :=
  place.elim l (l.modify · f)

@[simp] theorem length_modifyAt {α : Type} (place : Option Nat) (f : α → α) (l : List α) :
    (modifyAt place f l).length = l.length := by
  cases place <;> simp [modifyAt]

theorem modifyAt_id {α : Type} (place : Option Nat) (l : List α) : modifyAt place id l = l := by
  cases place with
  | none => rfl
  | some i => exact List.modify_id i l

theorem modifyAt_modifyAt {α : Type} (place : Option Nat) (f g : α → α) (l : List α) :
    modifyAt place g (modifyAt place f l) = modifyAt place (g ∘ f) l := by
  cases place with
  | none => rfl
  | some i => exact List.modify_modify_eq f g i l

theorem modifyAt_append {α : Type} {place : Option Nat} {l : List α}
    (h : ∀ i ∈ place, i < l.length) (f : α → α) (rest : List α) :
    modifyAt place f (l ++ rest) = modifyAt place f l ++ rest := by
  cases place with
  | none => rfl
  | some i => exact modify_append_of_lt f (h i rfl) rest

variable (t : ScopeTree Int String)

theorem functions_modifyFunction (f : Scope Int String → Scope Int String) :
    (t.modifyFunction f).functions =
      modifyAt (t.openFunctions.head?.map (· - 1)) f t.functions := by
  unfold modifyFunction
  cases hopen : t.openFunctions <;> rfl

theorem classes_modifyClass (f : ClassScope Int String → ClassScope Int String) :
    (t.modifyClass f).classes = modifyAt t.openClasses.head? f t.classes := by
  unfold modifyClass
  cases hopen : t.openClasses <;> rfl

@[simp] theorem module_extend (y : Yield Gain) :
    (t.extend y).module = t.module.collect y.total := rfl
@[simp] theorem openFunctions_extend (y : Yield Gain) :
    (t.extend y).openFunctions = t.openFunctions := rfl
@[simp] theorem openClasses_extend (y : Yield Gain) :
    (t.extend y).openClasses = t.openClasses := rfl
@[simp] theorem depth_extend (y : Yield Gain) : (t.extend y).depth = t.depth := rfl
@[simp] theorem currentIndex_extend (y : Yield Gain) :
    (t.extend y).currentIndex = t.currentIndex := rfl

/-- The functions of the yield come behind those that are there. -/
theorem functions_extend (y : Yield Gain) :
    (t.extend y).functions =
      modifyAt (t.openFunctions.head?.map (· - 1)) (Scope.collect y.own) t.functions ++
        FunctionYield.scopes t.functions.length t.currentIndex t.functions.length t.anonymous
          y.functions := by
  rw [← functions_modifyFunction]
  rfl

/-- The classes of the yield come behind those that are there. -/
theorem classes_extend (y : Yield Gain) :
    (t.extend y).classes =
      modifyAt t.openClasses.head? (collectClass t.functions.length t.depth y) t.classes ++
        ClassYield.scopes t.functions.length t.currentIndex t.depth t.classes.length
          y.classes := by
  rw [← classes_modifyClass]
  rfl

@[simp] theorem length_functions_extend (y : Yield Gain) :
    (t.extend y).functions.length = t.functions.length + y.functions.length := by
  simp [extend]

@[simp] theorem length_classes_extend (y : Yield Gain) :
    (t.extend y).classes.length = t.classes.length + y.classes.length := by
  simp [extend]

variable {t}

/-- The place of the innermost function is among the functions. -/
theorem Sound.function_place (h : t.Sound) :
    ∀ i ∈ t.openFunctions.head?.map (· - 1), i < t.functions.length := by
  intro i hi
  obtain ⟨j, hj, rfl⟩ := Option.map_eq_some_iff.mp hi
  have := h.functions j (List.mem_of_head? hj)
  omega

/-- The place of the innermost class is among the classes. -/
theorem Sound.class_place (h : t.Sound) : ∀ i ∈ t.openClasses.head?, i < t.classes.length :=
  fun i hi => h.classes i (List.mem_of_head? hi)

/-! ### The laws -/

/-- What a class gets from two yields one after the other. -/
theorem collectClass_append (base depth : Nat) (y z : Yield Gain) (c : ClassScope Int String) :
    collectClass base depth (y ++ z) c =
      collectClass (base + y.functions.length) depth z (collectClass base depth y c) := by
  by_cases hdepth : c.depth = depth
  · have hi : ∀ i, base + (i + y.functions.length) + 1 = base + y.functions.length + i + 1 :=
      fun i => by omega
    simp [collectClass, Scope.collect_add, hdepth, hi]
  · simp [collectClass, Scope.collect_add, hdepth]

/-- Two yields come one after the other. -/
theorem extend_append (h : t.Sound) (y z : Yield Gain) :
    t.extend (y ++ z) = (t.extend y).extend z := by
  have hfunctions : (t.extend (y ++ z)).functions = ((t.extend y).extend z).functions := by
    -- The open function is one of the old ones, so what `z` adds to it does not reach the functions
    -- of `y`.
    have hplace : ∀ i ∈ t.openFunctions.head?.map (· - 1),
        i < (modifyAt (t.openFunctions.head?.map (· - 1)) (Scope.collect y.own)
          t.functions).length := by
      rw [length_modifyAt]
      exact h.function_place
    have hcollect : Scope.collect (y ++ z).own = Scope.collect z.own ∘ Scope.collect y.own :=
      funext fun scope => Scope.collect_add y.own z.own scope
    rw [functions_extend (t.extend y), length_functions_extend, functions_extend t y,
      openFunctions_extend, modifyAt_append hplace, modifyAt_modifyAt, List.append_assoc,
      ← hcollect, functions_extend t, Yield.functions_append, FunctionYield.scopes_append,
      FunctionYield.scopes_map_shift]
    rfl
  have hclasses : (t.extend (y ++ z)).classes = ((t.extend y).extend z).classes := by
    have hplace : ∀ i ∈ t.openClasses.head?,
        i < (modifyAt t.openClasses.head? (collectClass t.functions.length t.depth y)
          t.classes).length := by
      rw [length_modifyAt]
      exact h.class_place
    -- The methods that `z` enrolls are numbered behind the functions of `y`.
    have hcollect : collectClass t.functions.length t.depth (y ++ z) =
        collectClass (t.functions.length + y.functions.length) t.depth z ∘
          collectClass t.functions.length t.depth y :=
      funext fun c => collectClass_append _ _ y z c
    rw [classes_extend (t.extend y), length_functions_extend, length_classes_extend,
      classes_extend t y, openClasses_extend, depth_extend, modifyAt_append hplace,
      modifyAt_modifyAt, List.append_assoc, ← hcollect, classes_extend t, Yield.classes_append,
      ClassYield.scopes_append, ClassYield.scopes_map_shift]
    rfl
  have hanonymous : (t.extend (y ++ z)).anonymous = ((t.extend y).extend z).anonymous := by
    simp [extend, Nat.add_assoc]
  have hmodule : (t.extend (y ++ z)).module = ((t.extend y).extend z).module :=
    Scope.collect_add y.total z.total t.module
  exact ScopeTree.ext hmodule hfunctions rfl hclasses rfl hanonymous

/-- Nothing is added by an empty yield. -/
theorem extend_empty : t.extend (.only 0) = t := by
  have hclass : collectClass t.functions.length t.depth (.only 0) = id := by
    funext c
    simp [collectClass]
  have hfunction : Scope.collect (.only 0 : Yield Gain).own = id :=
    funext fun scope => scope.collect_zero
  refine ScopeTree.ext (Scope.collect_zero _) ?_ rfl ?_ rfl rfl
  · rw [functions_extend, hfunction, modifyAt_id]
    exact List.append_nil _
  · rw [classes_extend, hclass, modifyAt_id]
    exact List.append_nil _

/-- The yield of a node goes to the open scopes. -/
theorem extend_ofContribution (s : Settings) (c : Contribution) :
    t.extend (.ofContribution s c) = t.contribute (Scope.absorb c) := by
  have hclass : collectClass t.functions.length t.depth (.ofContribution s c) =
      fun scope => { scope with toScope := Scope.absorb c scope.toScope } := by
    funext scope
    rw [Scope.absorb_eq_collect]
    simp [collectClass, Yield.ofContribution]
  refine ScopeTree.ext ?_ ?_ ?_ ?_ ?_ (anonymous_contribute t _).symm
  · rw [module_contribute, Scope.absorb_eq_collect]
    rfl
  · rw [functions_contribute, functions_modifyFunction, functions_extend, Scope.absorb_eq_collect]
    exact List.append_nil _
  · rw [openFunctions_contribute, openFunctions_extend]
  · rw [classes_contribute, classes_modifyClass, classes_extend, hclass]
    exact List.append_nil _
  · rw [openClasses_contribute, openClasses_extend]

/-- A new function comes behind the others, with the next number. -/
theorem push_eq (t : ScopeTree Int String) (name : Option Document) (lines : Lines Int)
    (params : List Document) :
    t.push name lines params =
      { t.modifyClass (enroll params.length t.depth (t.functions.length + 1)) with
        module := t.module.addFunction params.length
        functions := t.functions ++
          [{ index := t.functions.length + 1
             name := some (name.getD (.string (anonymousName (t.anonymous + 1))))
             lines
             parent := some t.currentIndex
             logical := 0
             cyclomatic := 1
             paramCount := params.length
             paramNames := params }]
        openFunctions := (t.functions.length + 1) :: t.openFunctions
        anonymous := t.anonymous + if name.isNone then 1 else 0 } := by
  cases t with
  | mk module functions openFunctions classes openClasses anonymous =>
    cases name <;> cases openClasses <;> rfl

/-- What the innermost class gets from a function, at opening and from the inside. A class is
not deeper than the functions around the new one, so what is inside adds no methods. -/
theorem collectClass_inFunction (base depth : Nat) (name : Option Document) (lines : Lines Int)
    (params : List Document) (y : Yield Gain) (c : ClassScope Int String) (h : c.depth ≤ depth) :
    collectClass base depth (y.inFunction (.ofFunction params.length) name lines params) c =
      collectClass (base + 1) (depth + 1) y (enroll params.length depth (base + 1) c) := by
  have hdeeper : c.depth ≠ depth + 1 := by omega
  simp [collectClass, enroll, Yield.inFunction, Scope.collect_add, Scope.addFunction_eq_collect,
    hdeeper]

theorem modifyAt_congr {α : Type} {place : Option Nat} {f g : α → α} {l : List α}
    (h : ∀ i ∈ place, ∀ a, l[i]? = some a → f a = g a) :
    modifyAt place f l = modifyAt place g l := by
  cases place with
  | none => rfl
  | some i =>
    refine List.ext_getElem? fun k => ?_
    simp only [modifyAt, Option.elim_some, List.getElem?_modify]
    by_cases hk : i = k
    · subst hk
      cases hat : l[i]? with
      | none => rfl
      | some a => simp [h i rfl a hat]
    · simp [hk]

/-- A yield inside of a function goes to the new function, which is closed again. -/
theorem extend_inFunction (h : t.Valid) (name : Option Document) (lines : Lines Int)
    (params : List Document) (y : Yield Gain) :
    t.extend (y.inFunction (.ofFunction params.length) name lines params) =
      { (t.push name lines params).extend y with openFunctions := t.openFunctions } := by
  have hlength : (t.push name lines params).functions.length = t.functions.length + 1 := by
    simp [push_eq]
  have hdepth : (t.push name lines params).depth = t.depth + 1 := by simp [depth]
  have hindex : (t.push name lines params).currentIndex = t.functions.length + 1 := by
    simp [currentIndex]
  have hunnamed : t.anonymous + FunctionYield.unnamed [⟨name, lines, params, none, y.own⟩] =
      (t.push name lines params).anonymous := by
    cases name <;> simp [push_eq, FunctionYield.unnamed]
  refine ScopeTree.ext ?_ ?_ rfl ?_ ?_ ?_
  · show t.module.collect (.ofFunction params.length + y.total) =
      (t.push name lines params).module.collect y.total
    rw [module_push, Scope.addFunction_eq_collect, Scope.collect_add]
  · show (t.extend (y.inFunction (.ofFunction params.length) name lines params)).functions =
      ((t.push name lines params).extend y).functions
    -- The function around the tree gets nothing, and the new one is at the last place.
    have hown :
        Scope.collect (y.inFunction (.ofFunction params.length) name lines params).own = id :=
      funext fun scope => scope.collect_zero
    rw [functions_extend, functions_extend, hown, modifyAt_id, hlength, openFunctions_push]
    show t.functions ++ (_ :: FunctionYield.scopes _ _ _ _ (y.functions.map .nested)) = _
    rw [FunctionYield.scopes_map_nested, hunnamed, push_eq]
    show _ = (t.functions ++ [_]).modify t.functions.length _ ++ _
    rw [modify_append_length, List.append_assoc]
    rfl
  · show (t.extend (y.inFunction (.ofFunction params.length) name lines params)).classes =
      ((t.push name lines params).extend y).classes
    have hclass : modifyAt t.openClasses.head?
          (collectClass t.functions.length t.depth
            (y.inFunction (.ofFunction params.length) name lines params)) t.classes =
        modifyAt t.openClasses.head? (collectClass (t.functions.length + 1) (t.depth + 1) y)
          (modifyAt t.openClasses.head?
            (enroll params.length t.depth (t.functions.length + 1)) t.classes) := by
      rw [modifyAt_modifyAt]
      refine modifyAt_congr fun i hi c hc => ?_
      exact collectClass_inFunction _ _ _ _ _ _ c (h.depths i (List.mem_of_head? hi) c hc)
    rw [classes_extend, classes_extend, hlength, openClasses_push, classes_push,
      classes_modifyClass, length_modifyAt, hclass]
    show _ ++ ClassYield.scopes _ _ _ _ (y.classes.map .nested) = _
    rw [ClassYield.scopes_map_nested, hdepth, hindex]
  · exact (openClasses_push t name lines params).symm
  · show t.anonymous + FunctionYield.unnamed (_ :: y.functions.map .nested) =
      (t.push name lines params).anonymous + FunctionYield.unnamed y.functions
    rw [FunctionYield.unnamed_cons, FunctionYield.unnamed_map_nested, ← Nat.add_assoc, hunnamed]

/-- A yield inside of a class goes to the new class, which is closed again. -/
theorem extend_inClass (t : ScopeTree Int String) (name superName : Option Document)
    (lines : Lines Int) (y : Yield Gain) :
    t.extend (y.inClass name superName lines) =
      { (t.openClass name superName lines).extend y with openClasses := t.openClasses } := by
  have hlength : (t.openClass name superName lines).classes.length = t.classes.length + 1 := by
    simp [openClass]
  refine ScopeTree.ext rfl ?_ rfl ?_ rfl rfl
  · show (t.extend (y.inClass name superName lines)).functions =
      ((t.openClass name superName lines).extend y).functions
    rw [functions_extend, functions_extend]
    rfl
  show (t.extend (y.inClass name superName lines)).classes =
    ((t.openClass name superName lines).extend y).classes
  -- The class around the new one gains nothing: what is inside of a class is its own.
  have hclass : collectClass t.functions.length t.depth (y.inClass name superName lines) = id := by
    funext c
    simp [collectClass, Yield.inClass]
  rw [classes_extend, classes_extend, hclass, modifyAt_id, hlength]
  show t.classes ++ (_ :: ClassYield.scopes _ _ _ _ y.classes) =
    (t.classes ++ [_]).modify t.classes.length _ ++ _
  rw [modify_append_length, List.append_assoc]
  have hdepth : (t.openClass name superName lines).depth = t.depth := rfl
  have hfunctions : (t.openClass name superName lines).functions = t.functions := rfl
  have hindex : (t.openClass name superName lines).currentIndex = t.currentIndex := rfl
  simp [ClassYield.scope, collectClass, hdepth, hfunctions, hindex]

/-! ### What the laws need -/

/-- Extending keeps the scopes valid. -/
theorem Valid.extend (h : t.Valid) (y : Yield Gain) : (t.extend y).Valid where
  functions i hi := by
    have := h.functions i hi
    rw [length_functions_extend]
    omega
  classes i hi := by
    have := h.classes i hi
    rw [length_classes_extend]
    omega
  depths i hi c hc := by
    have hlt := h.classes i hi
    rw [classes_extend, List.getElem?_append_left (by simpa using hlt)] at hc
    cases hplace : t.openClasses.head? with
    | none =>
      rw [hplace] at hc
      exact h.depths i hi c hc
    | some j =>
      -- The class that is extended keeps the depth at which it was opened.
      simp only [hplace, modifyAt, Option.elim_some, List.getElem?_modify,
        Option.map_eq_map, Option.map_eq_some_iff] at hc
      obtain ⟨before, hbefore, rfl⟩ := hc
      have := h.depths i hi before hbefore
      split <;> exact this

/-- Opening a function keeps the scopes valid. -/
theorem Valid.push (h : t.Valid) (name : Option Document) (lines : Lines Int)
    (params : List Document) : (t.push name lines params).Valid where
  toSound := h.toSound.step (.push name lines params)
  depths i hi c hc := by
    rw [openClasses_push] at hi
    rw [classes_push, getElem?_modifyClass, Option.map_eq_some_iff] at hc
    obtain ⟨before, hbefore, rfl⟩ := hc
    have hle := h.depths i hi before hbefore
    have hdepth : (t.push name lines params).depth = t.depth + 1 := by simp [depth]
    rw [hdepth]
    split
    · show before.depth ≤ t.depth + 1
      omega
    · omega

/-- Opening a class keeps the scopes valid. -/
theorem Valid.openClass (h : t.Valid) (name superName : Option Document) (lines : Lines Int) :
    (t.openClass name superName lines).Valid where
  toSound := h.toSound.step (.openClass name superName lines)
  depths i hi c hc := by
    show c.depth ≤ t.depth
    rcases List.mem_cons.mp hi with rfl | hi
    · -- The new class is exactly as deep as the functions that are open.
      simp only [ScopeTree.openClass, List.getElem?_concat_length, Option.some.injEq] at hc
      have hdepth : c.depth = t.depth := by rw [← hc]
      exact Nat.le_of_eq hdepth
    · have hlt := h.classes i hi
      simp only [ScopeTree.openClass, List.getElem?_append_left hlt] at hc
      exact h.depths i hi c hc

/-- Extending does not change the lines of the innermost function. -/
theorem lines_current_extend (h : t.Sound) (y : Yield Gain) :
    (t.extend y).current.lines = t.current.lines := by
  cases hopen : t.openFunctions with
  | nil => simp [current, currentFunction?, hopen, Scope.collect]
  | cons i outer =>
    have hi := h.functions i (by simp [hopen])
    have hlt : i - 1 < t.functions.length := by omega
    have hat : (t.extend y).functions[i - 1]? =
        (t.functions[i - 1]?).map (Scope.collect y.own) := by
      rw [functions_extend, hopen, List.getElem?_append_left (by simpa using hlt)]
      simp [modifyAt]
    simp [current, currentFunction?, hopen, hat, List.getElem?_eq_getElem hlt, Scope.collect]

/-- A new function is the innermost one. -/
theorem lines_current_push (t : ScopeTree Int String) (name : Option Document)
    (lines : Lines Int) (params : List Document) :
    (t.push name lines params).current.lines = lines := by
  simp [current, currentFunction?, push_eq]

end ScopeTree

/-! ### Extending a walk -/

namespace Walk

/-- Records the kinds that are not recorded yet. -/
def noteAll (entries : List (String × Diagnostic)) (noted : List Diagnostic × List String) :
    List Diagnostic × List String :=
  entries.foldl (fun noted entry =>
    if noted.2.contains entry.1 then noted
    else (noted.1 ++ [entry.2], noted.2 ++ [entry.1])) noted

/-- The walk after traversing a tree, from what the tree yields. -/
def extend (w : Walk) (y : Yield Gain) : Walk :=
  { tree := w.tree.extend y
    found := w.found ++ y.found
    errors := (noteAll y.unknown (w.errors, w.unsupported)).1
    unsupported := (noteAll y.unknown (w.errors, w.unsupported)).2 }

@[simp] theorem tree_extend (w : Walk) (y : Yield Gain) : (w.extend y).tree = w.tree.extend y := rfl

/-- Two yields come one after the other. -/
theorem extend_append {w : Walk} (h : w.tree.Sound) (y z : Yield Gain) :
    w.extend (y ++ z) = (w.extend y).extend z := by
  simp [extend, ScopeTree.extend_append h, noteAll, List.append_assoc]

/-- Nothing is added by an empty yield. -/
theorem extend_empty (w : Walk) : w.extend (.only 0) = w := by
  simp [extend, ScopeTree.extend_empty, noteAll]

/-- Recording what a node contributes is extending by its yield. -/
theorem record_eq_extend (w : Walk) (s : Settings) (c : Contribution) :
    w.record s c = w.extend (.ofContribution s c) := by
  have htree : (w.record s c).tree = w.tree.extend (.ofContribution s c) := by
    rw [tree_record, ScopeTree.extend_ofContribution]
  show (⟨(w.record s c).tree, _, _, _⟩ : Walk) = _
  rw [htree]
  rfl

variable {d : Dialect} {s : Settings}

/-- Meeting a node of an unknown kind is extending by its yield. -/
theorem meetUnknown_eq_extend (w : Walk) (node : Document) :
    w.meetUnknown d s node = w.extend <$> Yield.ofUnknown d s node := by
  unfold meetUnknown Yield.ofUnknown
  cases hkind : unknownKind d node with
  | error fault => rfl
  | ok error =>
    cases hstrict : s.on .strict with
    | true => rfl
    | false =>
      -- The yield of an unknown kind has a remark and nothing that counts, so the scopes stay as
      -- they are.
      have hextend : ∀ entry, w.extend (.only 0 [] [entry]) =
          { w with
            errors := (noteAll [entry] (w.errors, w.unsupported)).1
            unsupported := (noteAll [entry] (w.errors, w.unsupported)).2 } := by
        intro entry
        have htree : w.tree.extend (.only 0 [] [entry]) = w.tree :=
          w.tree.extend_empty
        simp [extend, htree]
      show (if w.unsupported.contains (reportedKind node) then pure w else _) =
        Except.ok (w.extend (.only 0 [] [(reportedKind node, error.record "warning")]))
      rw [hextend]
      cases hnoted : w.unsupported.contains (reportedKind node) with
      | true =>
        simp only [noteAll, List.foldl_cons, List.foldl_nil, hnoted, ite_true]
        rfl
      | false =>
        simp only [noteAll, List.foldl_cons, List.foldl_nil, hnoted]
        rfl

/-- Closing a class again leaves the walk with the yield of the class. -/
theorem closeScope_openClass (w : Walk) (name superName : Option Document) (lines : Lines Int)
    (y : Yield Gain) :
    ({ w with tree := w.tree.openClass name superName lines }.extend y).closeScope .classBody =
      .ok (w.extend (y.inClass name superName lines)) := by
  unfold extend
  rw [ScopeTree.extend_inClass]
  rfl

/-- Closing a function again leaves the walk with the yield of the function. -/
theorem closeScope_push {w : Walk} (h : w.tree.Valid) (name : Option Document)
    (lines : Lines Int) (params : List Document) (y : Yield Gain) :
    ({ w with tree := w.tree.push name lines params }.extend y).closeScope .function =
      .ok (w.extend (y.inFunction (.ofFunction params.length) name lines params)) := by
  have hpop : ((w.tree.push name lines params).extend y).pop =
      .ok { (w.tree.push name lines params).extend y with
        openFunctions := w.tree.openFunctions } := by
    simp [ScopeTree.pop]
  unfold extend closeScope
  simp only [hpop, ScopeTree.extend_inFunction h]
  rfl

/-- Going through a scope extends the walk by what is inside, with the scope around it. -/
theorem openScope_closeScope {w : Walk} (h : w.tree.Valid) (p : Placed) (rule : Rule)
    (form : ScopeForm) (inside : Walk → Except Error Walk)
    (yields : Lines Int → Except Error (Yield Gain))
    (hinside : ∀ {w : Walk}, w.tree.Valid → inside w = w.extend <$> yields w.tree.current.lines) :
    (do
      let w ← w.openScope p rule form
      let w ← inside w
      w.closeScope form) =
    (do
      let own := ((← p.node.lines?.mapError .fault).getD w.tree.current.lines)
      let y ← yields (form.innerLines own w.tree.current.lines)
      return w.extend (y.enclose Gain.ofFunction form rule p own)) := by
  unfold openScope
  cases hlines : p.node.lines? with
  | error fault => rfl
  | ok lines =>
    cases form with
    | classBody =>
      -- A class keeps the lines that are current, a function brings its own.
      show inside { w with tree := w.tree.openClass _ _ _ } >>= _ = _
      rw [hinside (h.openClass _ _ _)]
      simp only [map_eq_pure_bind, bind_assoc, pure_bind]
      show yields w.tree.current.lines >>= _ = yields w.tree.current.lines >>= _
      exact bind_congr fun y => closeScope_openClass w _ _ _ y
    | function =>
      show inside { w with tree := w.tree.push _ _ _ } >>= _ = _
      rw [hinside (h.push _ _ _), ScopeTree.lines_current_push]
      simp only [map_eq_pure_bind, bind_assoc, pure_bind]
      exact bind_congr fun y => closeScope_push h _ _ _ y

/-- Traversing some children extends the walk by their yield, if traversing each child does. -/
theorem traverseAll_eq_extend_of (parent : Document) (cs : List Child)
    (hchild : ∀ c ∈ cs, ∀ w : Walk, w.tree.Valid →
      w.traverse d s (c.placed parent) =
        w.extend <$> d.harvest s w.tree.current.lines (c.placed parent))
    {w : Walk} (h : w.tree.Valid) :
    w.traverseAll d s parent cs = w.extend <$> d.harvestAll s w.tree.current.lines parent cs := by
  induction cs generalizing w with
  | nil =>
    rw [traverseAll, Dialect.harvestAll]
    show Except.ok w = Except.ok (w.extend (.only 0))
    rw [extend_empty]
  | cons c rest ih =>
    rw [traverseAll, Dialect.harvestAll, hchild c List.mem_cons_self w h]
    simp only [map_eq_pure_bind, bind_assoc, pure_bind]
    refine bind_congr fun y => ?_
    rw [ih (fun c hc => hchild c (List.mem_cons_of_mem _ hc)) (h.extend y)]
    simp only [map_eq_pure_bind, tree_extend, ScopeTree.lines_current_extend h.toSound,
      extend_append h.toSound]

/-- Traversing a tree extends the walk by the yield of the tree. -/
theorem traverse_eq_extend {w : Walk} (h : w.tree.Valid) (p : Placed) :
    w.traverse d s p = w.extend <$> d.harvest s w.tree.current.lines p := by
  induction hsize : p.node.size using Nat.strongRecOn generalizing w p with
  | ind size ih =>
    -- The hypothesis is about smaller nodes in any walk, which is what a list of children needs.
    have hall : ∀ (ignored : List String) (cs : List Child),
        (∀ c ∈ cs, c ∈ p.node.children ignored) → ∀ {w : Walk}, w.tree.Valid →
          w.traverseAll d s p.node cs =
            w.extend <$> d.harvestAll s w.tree.current.lines p.node cs := by
      intro ignored cs hcs w h
      refine traverseAll_eq_extend_of p.node cs (fun c hc w h => ?_) h
      have hlt : c.node.size < size := hsize ▸ Document.size_lt_of_mem_children (hcs c hc)
      exact ih _ hlt h (c.placed p.node) rfl
    have hlines : ∀ {w : Walk}, w.tree.Valid → ∀ y : Yield Gain,
        (w.extend y).tree.current.lines = w.tree.current.lines :=
      fun h y => ScopeTree.lines_current_extend h.toSound y
    rw [traverse, Dialect.harvest]
    cases hrule : d.ruleFor p.node with
    | none =>
      simp only [meetUnknown_eq_extend, map_eq_pure_bind, bind_assoc, pure_bind]
      refine bind_congr fun y => ?_
      rw [hall [] _ (fun _ hc => hc) (h.extend y), hlines h]
      simp only [map_eq_pure_bind, extend_append h.toSound]
    | some rule =>
      simp only [map_eq_pure_bind, bind_assoc]
      refine bind_congr fun c => ?_
      rw [record_eq_extend]
      cases hopens : rule.opens with
      | none =>
        rw [hall c.ignored _ (fun _ hc => hc) (h.extend _), hlines h]
        simp only [map_eq_pure_bind, bind_assoc, pure_bind, extend_append h.toSound]
      | some form =>
        have hfilter : ∀ keep : Child → Bool, ∀ child ∈ (p.node.children c.ignored).filter keep,
            child ∈ p.node.children c.ignored := fun keep _ hc => (List.mem_filter.mp hc).1
        simp only
        rw [hall c.ignored _ (hfilter _) (h.extend _), hlines h]
        simp only [map_eq_pure_bind, bind_assoc, pure_bind]
        refine bind_congr fun outside => ?_
        -- What is visited inside runs in the walk with the scope open, and closing it leaves the
        -- walk extended by the enclosed yield.
        rw [openScope_closeScope ((h.extend _).extend _) p rule form _
          (fun lines => d.harvestAll s lines p.node _) (hall c.ignored _ (hfilter _)),
          hlines (h.extend _), hlines h]
        have hextend : ∀ x y z, w.extend (x ++ (y ++ z)) = ((w.extend x).extend y).extend z := by
          intro x y z
          have hx : (w.extend x).tree.Sound := (h.extend x).toSound
          rw [extend_append h.toSound, extend_append hx]
        simp only [hextend]

end Walk

/-! ### From the root -/

namespace Dialect

/-- A traversal from the root starts with nothing and extends it by the yield of the tree. -/
theorem walk_eq_extend (d : Dialect) (s : Settings) (root : Document) :
    d.walk s root = (do
      match ← root.lines?.mapError .fault with
      | none => throw .noLines
      | some lines =>
        let y ← d.harvest s lines { node := d.typedRoot root }
        return { tree := ScopeTree.start lines : Walk }.extend y) := by
  unfold walk
  refine bind_congr fun found => ?_
  cases found with
  | none => rfl
  | some lines =>
    simp only [Walk.run_visit_eq_traverse, Walk.run_nil]
    rw [Walk.traverse_eq_extend (ScopeTree.valid_start lines)]
    simp only [map_eq_pure_bind, bind_assoc, pure_bind]
    rfl

/-- The functions that are found in a module. -/
theorem functions_extend_start (lines : Lines Int) (y : Yield Gain) :
    ((ScopeTree.start lines).extend y).functions = FunctionYield.scopes 0 0 0 0 y.functions := by
  rw [ScopeTree.functions_extend]
  rfl

/-- The classes that are found in a module. -/
theorem classes_extend_start (lines : Lines Int) (y : Yield Gain) :
    ((ScopeTree.start lines).extend y).classes = ClassYield.scopes 0 0 0 0 y.classes := by
  rw [ScopeTree.classes_extend]
  rfl

end Dialect

end CodeMetrics
