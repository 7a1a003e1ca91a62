import CodeMetrics.Proofs.Result
import CodeMetrics.Proofs.Scope.Ownership
import CodeMetrics.Proofs.Tally
import Mathlib.Algebra.GroupWithZero.Nat
import Mathlib.Algebra.Ring.Int.Defs

/-!
# `CodeMetrics.Proofs.Scope.Attribution`: what is counted for a function

While a tree is traversed, whatever a node contributes goes to the module and to the
innermost open function. So at the end a function has what the nodes that it owns contribute,
no matter how functions are nested, and the module has what all nodes contribute.

`Scope.Collects` says that a scope has counted what some occurrences contribute.
`ScopeTree.AttributesFunctions` says it of the module and of each function in the middle of a
traversal, where only the errands so far count. One turn keeps it up
(`attributesFunctions_perform`), and `Dialect.functions_attributed` is what this means at the
end.
-/

set_option autoImplicit false

namespace CodeMetrics

/-! ### Collecting -/

/-- The scope has counted what some occurrences contribute, and `base` paths besides. -/
structure Scope.Collects (scope : Scope Int String) (d : Dialect) (s : Settings) (base : Int)
    (vs : List Occurrence) : Prop where
  logical : scope.logical = (vs.map fun o => (d.contribution s o.place).lloc).sum
  cyclomatic :
    scope.cyclomatic = base + (vs.map fun o => (d.contribution s o.place).cyclomatic).sum
  operators : scope.operators.Counts (vs.flatMap fun o => (d.contribution s o.place).operators)
  operands : scope.operands.Counts (vs.flatMap fun o => (d.contribution s o.place).operands)

namespace Scope.Collects

variable {scope : Scope Int String} {d : Dialect} {s : Settings} {base : Int}
variable {vs : List Occurrence}

/-- A contribution is one more occurrence. -/
theorem absorb (h : scope.Collects d s base vs) (o : Occurrence) :
    (Scope.absorb (d.contribution s o.place) scope).Collects d s base (vs ++ [o]) where
  logical := by simp [Scope.absorb, h.logical]
  cyclomatic := by simp [Scope.absorb, h.cyclomatic, Int.add_assoc]
  operators := by
    rw [List.flatMap_append, List.flatMap_singleton]
    exact h.operators.addAll _
  operands := by
    rw [List.flatMap_append, List.flatMap_singleton]
    exact h.operands.addAll _

/-- A function that is opened inside is one more path. -/
theorem addFunction (h : scope.Collects d s base vs) (params : Nat) :
    (scope.addFunction params).Collects d s (base + 1) vs where
  logical := h.logical
  cyclomatic := by
    show scope.cyclomatic + 1 = _
    rw [h.cyclomatic]
    omega
  operators := h.operators
  operands := h.operands

/-- A visit is counted in the scope of the owner and in no other one of the form. -/
theorem visit {form : ScopeForm} {p : Occurrence} {log : List Errand}
    (h : scope.Collects d s base ((Errand.visited log).filter (·.ownedBy d form p)))
    (o : Occurrence) :
    (if o.ownedBy d form p then Scope.absorb (d.contribution s o.place) scope
      else scope).Collects d s base
        ((Errand.visited (log ++ [.visit o])).filter (·.ownedBy d form p)) := by
  rw [Errand.visited_append_visit, List.filter_append, List.filter_singleton]
  cases o.ownedBy d form p with
  | true => exact h.absorb o
  | false =>
    rw [cond_false, List.append_nil]
    exact h

end Scope.Collects

/-! ### The scopes that a turn changes -/

namespace ScopeTree

/-- The numbers of open functions start at one. -/
theorem Tracks.openFunctions_pos {t : ScopeTree Int String} {log : List Errand}
    (h : t.Tracks log) : ∀ i ∈ t.openFunctions, 0 < i := by
  intro i hi
  have hopen : t.openFunctions = _ := h.openScopes .function
  rw [hopen] at hi
  obtain ⟨o, -, rfl⟩ := List.mem_map.mp hi
  show 0 < 1 + _
  omega

end ScopeTree

namespace Errand

/-- The number of the function around an occurrence, zero if that is the module. -/
def parentOf (d : Dialect) (log : List Errand) (o : Occurrence) : Nat :=
  (o.owner d .function).elim 0 (numberOf .function log)

/-- The function around an occurrence keeps its number. -/
theorem parentOf_append {d : Dialect} {log more : List Errand} {o : Occurrence}
    (h : ∀ p, o.owner d .function = some p → p ∈ opened .function log) :
    parentOf d (log ++ more) o = parentOf d log o := by
  unfold parentOf
  cases howner : o.owner d .function with
  | none => rfl
  | some p => exact numberOf_append (h p howner)

end Errand

namespace Turn

variable {d : Dialect} {s : Settings} {log : List Errand} {e : Errand} {w after : Walk}

/-- The innermost open function is the one around the occurrence. -/
theorem currentIndex_eq {o : Occurrence} (turn : Turn d s log e w after) (hat : e.StartsAt o) :
    w.tree.currentIndex = Errand.parentOf d log o := by
  have hhead : w.tree.openFunctions.head? = _ := turn.head_openScopes hat .function
  rw [ScopeTree.currentIndex, List.headD_eq_head?_getD, hhead, Errand.parentOf]
  cases o.owner d .function <;> rfl

end Turn

/-! ### Functions in the middle of a traversal -/

/-- The scope is the one of the given function after the errands of `log`. -/
structure Scope.BelongsTo (f : Scope Int String) (d : Dialect) (s : Settings)
    (log : List Errand) (o : Occurrence) : Prop where
  index : f.index = Errand.numberOf .function log o
  parent : f.parent = some (Errand.parentOf d log o)
  collects : f.Collects d s 1 ((Errand.visited log).filter (·.ownedBy d .function o))

/-- After the errands of `log`, the module has what all visited nodes contribute and a path
for each function. Functions are listed in the order they were opened. -/
structure ScopeTree.AttributesFunctions (t : ScopeTree Int String) (d : Dialect) (s : Settings)
    (log : List Errand) : Prop where
  module : t.module.Collects d s (1 + (Errand.opened .function log).length) (Errand.visited log)
  functions : ∀ (k : Nat) (o : Occurrence), (Errand.opened .function log)[k]? = some o →
    ∃ f : Scope Int String, t.functions[k]? = some f ∧ f.BelongsTo d s log o

/-- A function keeps its number and its parent. -/
theorem Scope.BelongsTo.next {d : Dialect} {s : Settings} {log : List Errand} {e : Errand}
    {w after : Walk} {f g : Scope Int String} {o : Occurrence} (h : f.BelongsTo d s log o)
    (turn : Turn d s log e w after) (ho : o ∈ Errand.opened .function log)
    (hindex : g.index = f.index) (hparent : g.parent = f.parent)
    (hcollects : g.Collects d s 1
      ((Errand.visited (log ++ [e])).filter (·.ownedBy d .function o))) :
    g.BelongsTo d s (log ++ [e]) o where
  index := by rw [hindex, h.index, Errand.numberOf_append ho]
  parent := by
    rw [hparent, h.parent, Errand.parentOf_append]
    intro p howner
    obtain ⟨rule, hmem⟩ := Errand.mem_opened.mp ho
    exact turn.allFit_log.owner_mem_opened hmem .openScope howner
  collects := hcollects

namespace ScopeTree

variable {d : Dialect} {s : Settings} {log : List Errand} {w after : Walk}

/-- At the start the module has one path, and there is no function. -/
theorem attributesFunctions_start (lines : Lines Int) :
    (start lines).AttributesFunctions d s [] where
  module := ⟨rfl, rfl, Tally.counts_empty, Tally.counts_empty⟩
  functions k o hk := by cases hk

/-- An errand that leaves the module and the functions as they are. -/
theorem attributesFunctions_of_unchanged {e : Errand} (turn : Turn d s log e w after)
    (h : w.tree.AttributesFunctions d s log)
    (hvisited : e.visited? = none) (hopened : e.opened? .function = none)
    (hmodule : after.tree.module = w.tree.module)
    (hfunctions : after.tree.functions = w.tree.functions) :
    after.tree.AttributesFunctions d s (log ++ [e]) := by
  constructor
  · rw [hmodule, Errand.visited_append_of_none log hvisited,
      Errand.opened_append_of_none log hopened]
    exact h.module
  · intro k o hk
    rw [Errand.opened_append_of_none log hopened] at hk
    obtain ⟨f, hf, hbelongs⟩ := h.functions k o hk
    refine ⟨f, by rw [hfunctions, hf], hbelongs.next turn (List.mem_of_getElem? hk) rfl rfl ?_⟩
    rw [Errand.visited_append_of_none log hvisited]
    exact hbelongs.collects

/-- A visit adds to the module and to the owner. -/
theorem attributesFunctions_visit {o : Occurrence} (turn : Turn d s log (.visit o) w after)
    (h : w.tree.AttributesFunctions d s log)
    (htree : after.tree = w.tree.contribute (Scope.absorb (d.contribution s o.place))) :
    after.tree.AttributesFunctions d s (log ++ [.visit o]) := by
  have hopened : Errand.opened .function (log ++ [.visit o]) = Errand.opened .function log :=
    Errand.opened_append_of_none log rfl
  constructor
  · rw [htree, module_contribute, hopened, Errand.visited_append_visit]
    exact h.module.absorb o
  · intro k p hk
    rw [hopened] at hk
    obtain ⟨f, hf, hbelongs⟩ := h.functions k p hk
    -- Function `k` is the innermost open one if it owns `o`.
    have hhead : w.tree.openFunctions.head? = some (1 + k) ↔ o.ownedBy d .function p :=
      turn.head_openScopes_iff .visit hk
    refine ⟨if o.ownedBy d .function p then Scope.absorb (d.contribution s o.place) f else f,
      ?_, hbelongs.next turn (List.mem_of_getElem? hk) ?_ ?_ (hbelongs.collects.visit o)⟩
    · rw [htree, functions_contribute,
        getElem?_modifyFunction _ _ turn.tracks.openFunctions_pos, hf, Option.map_some]
      simp only [hhead]
    · split <;> rfl
    · split <;> rfl

/-- A new function has nothing yet, and is one more path in the module. -/
theorem attributesFunctions_push {o : Occurrence} {rule : Rule} {name : Option Document}
    {lines : Lines Int} {params : List Document}
    (turn : Turn d s log (.openScope o rule .function) w after)
    (h : w.tree.AttributesFunctions d s log) (htree : after.tree = w.tree.push name lines params) :
    after.tree.AttributesFunctions d s (log ++ [.openScope o rule .function]) := by
  have hvisited : Errand.visited (log ++ [.openScope o rule .function]) = Errand.visited log :=
    Errand.visited_append_of_none log rfl
  have hlength := turn.tracks.length_functions
  obtain ⟨own, hfunctions⟩ := functions_push w.tree name lines params
  constructor
  · rw [htree, module_push, hvisited, Errand.opened_append_openScope, List.length_append,
      List.length_singleton, Int.natCast_add, ← Int.add_assoc]
    exact h.module.addFunction params.length
  · intro k p hk
    rw [htree, hfunctions]
    rcases Errand.getElem?_opened_openScope hk with ⟨hlt, hk⟩ | ⟨rfl, rfl⟩
    · -- One of the functions that were there before.
      obtain ⟨f, hf, hbelongs⟩ := h.functions k p hk
      rw [List.getElem?_append_left (by omega), hf]
      refine ⟨f, rfl, hbelongs.next turn (List.mem_of_getElem? hk) rfl rfl ?_⟩
      rw [hvisited]
      exact hbelongs.collects
    · -- The new one.
      rw [← hlength, List.getElem?_concat_length]
      refine ⟨_, rfl, ?_, ?_, ?_⟩
      · rw [Errand.numberOf_opened turn.labels, hlength]
        exact Nat.add_comm _ 1
      · rw [turn.currentIndex_eq .openScope, Errand.parentOf_append]
        intro q howner
        exact turn.owner_mem_opened .openScope howner
      · rw [hvisited, turn.filter_visited_eq_nil]
        exact ⟨rfl, rfl, Tally.counts_empty, Tally.counts_empty⟩

/-- A turn keeps up what is counted for the module and for the functions. -/
theorem attributesFunctions_perform {e : Errand} (turn : Turn d s log e w after)
    (h : w.tree.AttributesFunctions d s log) :
    after.tree.AttributesFunctions d s (log ++ [e]) := by
  rcases Walk.perform_cases turn.performed with ⟨o, rfl, htree⟩ |
    ⟨o, rule, name, lines, rfl, htree⟩ | ⟨o, rule, name, superName, lines, rfl, htree⟩ |
    ⟨o, rfl, htree⟩ | ⟨o, rfl, htree⟩
  · exact attributesFunctions_visit turn h htree
  · exact attributesFunctions_push turn h htree
  · exact attributesFunctions_of_unchanged turn h rfl rfl (by rw [htree]; rfl) (by rw [htree]; rfl)
  · have hpop := pop_eq_ok htree
    exact attributesFunctions_of_unchanged turn h rfl rfl (by rw [hpop]) (by rw [hpop])
  · have hclose := closeClass_eq_ok htree
    exact attributesFunctions_of_unchanged turn h rfl rfl (by rw [hclose]) (by rw [hclose])

end ScopeTree

/-! ### Functions at the end -/

namespace Dialect

variable {d : Dialect} {s : Settings} {root : Document}

/-- When a traversal has come to its end, each function and the module have what the visited nodes
contribute. -/
theorem attributesFunctions_of_walk {w : Walk} (done : d.walk s root = .ok w) :
    w.tree.AttributesFunctions d s (d.journal s root).errands :=
  invariant_of_walk (P := fun log w => w.tree.AttributesFunctions d s log) done
    ScopeTree.attributesFunctions_start
    fun _ _ _ _ turn h => ScopeTree.attributesFunctions_perform turn h

/-- What is counted for a function. When a traversal has come to its end, there is one scope
for each function, which has what the visited nodes contribute that the function owns. Its
parent is the scope of the owner of the function, or the module if there is none. The module
has what all visited nodes contribute and one path for each function. -/
theorem functions_attributed {w : Walk} (done : d.walk s root = .ok w) :
    let j := d.journal s root
    d.Traversed s root w ∧
    w.tree.functions.length = (j.opened .function).length ∧
    w.tree.module.Collects d s (1 + (j.opened .function).length) j.visited ∧
    ∀ o ∈ j.opened .function, ∃ (i parent : Nat) (f : Scope Int String),
      j.scopeOf .function o = some i ∧ w.tree.scopes[i]? = some f ∧ f.index = i ∧
      (o.owner d .function).elim (some 0) (j.scopeOf .function) = some parent ∧
      f.parent = some parent ∧
      f.Collects d s 1 (j.visited.filter (·.ownedBy d .function o)) := by
  intro j
  have hattributes : w.tree.AttributesFunctions d s j.errands :=
    invariant_of_walk (P := fun log w => w.tree.AttributesFunctions d s log) done
      ScopeTree.attributesFunctions_start
      fun _ _ _ _ turn h => ScopeTree.attributesFunctions_perform turn h
  refine ⟨traversed_of_walk done, (tracks_of_walk done).length_functions, hattributes.module, ?_⟩
  intro o ho
  obtain ⟨k, hk⟩ := List.getElem?_of_mem ho
  obtain ⟨f, hf, hbelongs⟩ := hattributes.functions k o hk
  have hnumber := Errand.numberOf_of_getElem? (pairwise_label_errands d s root) hk
  refine ⟨1 + k, Errand.parentOf d j.errands o, f, ?_, ?_, ?_, ?_, hbelongs.parent,
    hbelongs.collects⟩
  · rw [scopeOf_of_mem_opened ho, hnumber]
    rfl
  · rw [Nat.add_comm]
    exact hf
  · rw [hbelongs.index, hnumber]
    rfl
  · rw [Errand.parentOf]
    cases howner : o.owner d .function with
    | none => rfl
    | some p =>
      -- The owner is a function as well, whose scope was opened before.
      obtain ⟨rule, hmem⟩ := Errand.mem_opened.mp ho
      have hp := (allFit_errands d s root).owner_mem_opened hmem .openScope howner
      exact scopeOf_of_mem_opened hp

end Dialect

/-- The traversal of the module with nested scopes comes to its end, with three functions and
two classes. -/
theorem Sample.walk_nested :
    ∃ w, Estree.dialect.walk {} Sample.nested = .ok w ∧
      w.tree.functions.length = 3 ∧ w.tree.classes.length = 2 := by
  have hlengths : (Estree.dialect.walk {} Sample.nested).toOption.map
      (fun w => (w.tree.functions.length, w.tree.classes.length)) = some (3, 2) := by
    decide +kernel
  obtain ⟨w, hwalk, hpair⟩ := exists_ok_of_map_toOption hlengths
  obtain ⟨hfunctions, hclasses⟩ := Prod.mk.inj hpair
  exact ⟨w, hwalk, hfunctions, hclasses⟩

/-- In the module with nested scopes there are three functions, each with what it owns, and the
module has a path for each of them. -/
theorem functions_attributed_nested :
    ∃ w, Estree.dialect.walk {} Sample.nested = .ok w ∧
      let j := Estree.dialect.journal {} Sample.nested
      (j.opened .function).length = 3 ∧
      w.tree.module.Collects Estree.dialect {} 4 j.visited ∧
      ∀ o ∈ j.opened .function, ∃ (i : Nat) (f : Scope Int String),
        j.scopeOf .function o = some i ∧ w.tree.scopes[i]? = some f ∧
        f.Collects Estree.dialect {} 1
          (j.visited.filter (·.ownedBy Estree.dialect .function o)) := by
  obtain ⟨w, hw, hthree, -⟩ := Sample.walk_nested
  obtain ⟨-, hlength, hmodule, hfunctions⟩ := Dialect.functions_attributed hw
  rw [hthree] at hlength
  rw [← hlength] at hmodule
  refine ⟨w, hw, hlength.symm, hmodule, fun o ho => ?_⟩
  obtain ⟨i, -, f, hnumber, hf, -, -, -, hcollects⟩ := hfunctions o ho
  exact ⟨i, f, hnumber, hf, hcollects⟩

end CodeMetrics
