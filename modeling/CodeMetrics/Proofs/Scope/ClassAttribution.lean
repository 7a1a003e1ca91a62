import CodeMetrics.Proofs.Scope.Attribution

/-!
# `CodeMetrics.Proofs.Scope.ClassAttribution`: what is counted for a class

What a node contributes also goes to the innermost open class. A function that is opened is
one more path in that class, adds its parameters there, and is listed as a method if as many
functions are open as there were when the class was opened.

The number of open functions tells the methods apart because scopes nest: the functions that
a class stands in are among those that its own functions stand in, and are as many only if
there is no other function between them (`Dialect.innermost_iff`).

`ScopeTree.AttributesClasses` holds in the middle of a traversal and is kept up by every turn
(`attributesClasses_perform`). `Dialect.classes_attributed` is what it means at the end.
-/

set_option autoImplicit false

namespace CodeMetrics

/-! ### Methods -/

/-- The innermost scope that the steps lead into, of whatever form. -/
def Dialect.innermost (d : Dialect) : List Descent → Option (ScopeForm × Occurrence)
  | [] => none
  | step :: above =>
    match d.formOf step with
    | none => d.innermost above
    | some form => some (form, ⟨step.origin, above⟩)

/-- Whether an occurrence stands in the scope of the given class with no scope in between. -/
def Occurrence.isMethodOf (d : Dialect) (o c : Occurrence) : Bool :=
  (d.innermost o.trail).any fun scope => scope.1 = .classBody && scope.2.path == c.path

namespace Dialect

variable {d : Dialect}

/-- The innermost scope of all is the innermost one of its form. -/
theorem head?_enclosing_of_innermost {trail : List Descent} {form : ScopeForm} {p : Occurrence}
    (h : d.innermost trail = some (form, p)) : (d.enclosing form trail).head? = some p := by
  induction trail with
  | nil => cases h
  | cons step above ih =>
    cases hform : d.formOf step with
    | none =>
      simp only [innermost, hform] at h
      simp only [enclosing, hform, reduceCtorEq, if_false]
      exact ih h
    | some other =>
      simp only [innermost, hform] at h
      cases h
      simp only [enclosing, hform, if_true, List.head?_cons]

/-- The functions around a class are among those around what stands in the class, and they
are as many if the class is the innermost scope. -/
theorem innermost_iff {trail : List Descent} {c : Occurrence}
    (h : (d.enclosing .classBody trail).head? = some c) :
    (d.enclosing .function c.trail).length ≤ (d.enclosing .function trail).length ∧
      (d.innermost trail = some (.classBody, c) ↔
        (d.enclosing .function c.trail).length = (d.enclosing .function trail).length) := by
  induction trail with
  | nil => cases h
  | cons step above ih =>
    cases hform : d.formOf step with
    | none =>
      simp only [enclosing, hform, reduceCtorEq, if_false] at h
      simp only [enclosing, innermost, hform, reduceCtorEq, if_false]
      exact ih h
    | some form =>
      cases form with
      | classBody =>
        simp only [enclosing, hform, if_true, List.head?_cons, Option.some.injEq] at h
        subst h
        simp [enclosing, innermost, hform]
      | function =>
        -- The step leads into a function, which is then between the class and the end.
        simp only [enclosing, hform, Option.some.injEq, reduceCtorEq, if_false] at h
        have hle := (ih h).1
        simp only [enclosing, innermost, hform, if_true, List.length_cons]
        refine ⟨by omega, ?_⟩
        constructor
        · intro heq
          cases heq
        · intro heq
          omega

end Dialect

namespace Occurrence

variable {d : Dialect} {o c : Occurrence}

/-- Being a method, with the class named. -/
theorem isMethodOf_iff_innermost :
    o.isMethodOf d c ↔ ∃ p, d.innermost o.trail = some (.classBody, p) ∧ p.path = c.path := by
  simp [isMethodOf, Option.any_eq_true, and_left_comm]

/-- A method of a class is owned by it. -/
theorem ownedBy_of_isMethodOf (h : o.isMethodOf d c) : o.ownedBy d .classBody c := by
  obtain ⟨p, hinner, hpath⟩ := isMethodOf_iff_innermost.mp h
  exact ownedBy_iff.mpr ⟨p, Dialect.head?_enclosing_of_innermost hinner, hpath⟩

/-- What a class owns is a method if it stands in as many functions as the class. -/
theorem isMethodOf_iff (howner : o.owner d .classBody = some c) :
    o.isMethodOf d c ↔ (c.nest d .function).length = (o.nest d .function).length := by
  rw [nest, nest, ← (Dialect.innermost_iff howner).2, isMethodOf_iff_innermost]
  constructor
  · rintro ⟨p, hinner, -⟩
    have hp : o.owner d .classBody = some p := Dialect.head?_enclosing_of_innermost hinner
    cases howner.symm.trans hp
    exact hinner
  · intro hinner
    exact ⟨c, hinner, rfl⟩

end Occurrence

namespace Turn

variable {d : Dialect} {s : Settings} {log : List Errand} {e : Errand} {w after : Walk}
variable {o p : Occurrence}

/-- A class is the innermost open one if it owns the occurrence. -/
theorem head_openClasses_iff (turn : Turn d s log e w after) (hat : e.StartsAt o) {k : Nat}
    (hk : (Errand.opened .classBody log)[k]? = some p) :
    w.tree.openClasses.head? = some k ↔ o.ownedBy d .classBody p := by
  have hhead := turn.head_openScopes_iff hat hk
  rwa [ScopeForm.first, Nat.zero_add] at hhead

/-- An occurrence that is owned by the node of an opened scope has that node as its owner. -/
theorem owner_eq_of_ownedBy {form : ScopeForm} (turn : Turn d s log e w after)
    (hat : e.StartsAt o) (hp : p ∈ Errand.opened form log) (h : o.ownedBy d form p) :
    o.owner d form = some p := by
  obtain ⟨q, howner, hpath⟩ := Occurrence.ownedBy_iff.mp h
  have hq := turn.owner_mem_opened hat howner
  have hnodup := Errand.nodup_path_opened form turn.labels_log
  rw [howner, List.inj_on_of_nodup_map hnodup hq hp hpath]

end Turn

/-! ### Classes in the middle of a traversal -/

/-- The functions that a class owns, among those that some errands opened. -/
def Errand.functionsOf (d : Dialect) (log : List Errand) (o : Occurrence) : List Occurrence :=
  (opened .function log).filter (·.ownedBy d .classBody o)

/-- The scope is the one of the given class after the errands of `log`. -/
structure ClassScope.BelongsTo (c : ClassScope Int String) (d : Dialect) (s : Settings)
    (log : List Errand) (o : Occurrence) : Prop where
  depth : c.depth = (o.nest d .function).length
  collects : c.toScope.Collects d s (1 + (Errand.functionsOf d log o).length)
    ((Errand.visited log).filter (·.ownedBy d .classBody o))
  params : c.paramCount =
    ((Errand.functionsOf d log o).map fun f => (f.place.node.parameters.length : Int)).sum
  methods : c.methods =
    ((Errand.opened .function log).filter (·.isMethodOf d o)).map (Errand.numberOf .function log)

/-- After the errands of `log`, each class has what the nodes contribute that it owns. Classes
are listed in the order they were opened. -/
def ScopeTree.AttributesClasses (t : ScopeTree Int String) (d : Dialect) (s : Settings)
    (log : List Errand) : Prop :=
  ∀ (k : Nat) (o : Occurrence), (Errand.opened .classBody log)[k]? = some o →
    ∃ c : ClassScope Int String, t.classes[k]? = some c ∧ c.BelongsTo d s log o

namespace ClassScope.BelongsTo

variable {c : ClassScope Int String} {d : Dialect} {s : Settings} {log : List Errand}
variable {e : Errand} {p : Occurrence}

/-- Where no function is opened, only what a class collects can change. -/
theorem keep {b : ClassScope Int String} (h : c.BelongsTo d s log p)
    (hopened : e.opened? .function = none) (hdepth : b.depth = c.depth)
    (hparams : b.paramCount = c.paramCount) (hmethods : b.methods = c.methods)
    (hcollects : b.toScope.Collects d s (1 + (Errand.functionsOf d log p).length)
      ((Errand.visited (log ++ [e])).filter (·.ownedBy d .classBody p))) :
    b.BelongsTo d s (log ++ [e]) p := by
  have hfunctions : Errand.functionsOf d (log ++ [e]) p = Errand.functionsOf d log p := by
    rw [Errand.functionsOf, Errand.opened_append_of_none log hopened, Errand.functionsOf]
  have hnumbers : Errand.numberOf .function (log ++ [e]) = Errand.numberOf .function log := by
    funext o
    rw [Errand.numberOf, Errand.opened_append_of_none log hopened, Errand.numberOf]
  constructor
  · rw [hdepth, h.depth]
  · rw [hfunctions]
    exact hcollects
  · rw [hparams, h.params, hfunctions]
  · rw [hmethods, h.methods, hnumbers, Errand.opened_append_of_none log hopened]

/-- An errand that visits nothing and opens no function changes nothing for a class. -/
theorem of_none (h : c.BelongsTo d s log p) (hvisited : e.visited? = none)
    (hopened : e.opened? .function = none) : c.BelongsTo d s (log ++ [e]) p := by
  refine h.keep hopened rfl rfl rfl ?_
  rw [Errand.visited_append_of_none log hvisited]
  exact h.collects

/-- A visit is counted for a class that owns the occurrence. -/
theorem visit (h : c.BelongsTo d s log p) (o : Occurrence) :
    (if o.ownedBy d .classBody p
      then { c with toScope := Scope.absorb (d.contribution s o.place) c.toScope }
      else c).BelongsTo d s (log ++ [.visit o]) p := by
  have hcollects := h.collects.visit o
  split
  · rename_i howned
    rw [if_pos howned] at hcollects
    exact h.keep rfl rfl rfl rfl hcollects
  · rename_i howned
    rw [if_neg howned] at hcollects
    exact h.keep rfl rfl rfl rfl hcollects

/-- Methods keep their numbers. -/
theorem map_numberOf_methods (h : c.BelongsTo d s log p) (more : List Errand) :
    ((Errand.opened .function log).filter (·.isMethodOf d p)).map
      (Errand.numberOf .function (log ++ more)) = c.methods := by
  rw [h.methods]
  exact List.map_congr_left fun q hq => Errand.numberOf_append (List.mem_of_mem_filter hq)

section

variable {o : Occurrence} {rule : Rule} {w after : Walk}

/-- A function that is opened is noted by the class that owns it. -/
theorem enroll (turn : Turn d s log (.openScope o rule .function) w after)
    (h : c.BelongsTo d s log p) (howner : o.owner d .classBody = some p) :
    (ScopeTree.enroll o.place.node.parameters.length w.tree.depth
      (w.tree.functions.length + 1) c).BelongsTo d s (log ++ [.openScope o rule .function]) p := by
  have howned : o.ownedBy d .classBody p = true := Occurrence.ownedBy_iff.mpr ⟨p, howner, rfl⟩
  have hfunctions : Errand.functionsOf d (log ++ [.openScope o rule .function]) p =
      Errand.functionsOf d log p ++ [o] := by
    rw [Errand.functionsOf, Errand.opened_append_openScope, List.filter_append,
      List.filter_singleton, howned, cond_true, Errand.functionsOf]
  have hnumber : Errand.numberOf .function (log ++ [.openScope o rule .function]) o =
      w.tree.functions.length + 1 := by
    rw [Errand.numberOf_opened turn.labels, ← turn.tracks.upcoming .function]
    rfl
  -- The depths are equal if there is no function between the class and the new one.
  have hmethod := Occurrence.isMethodOf_iff howner
  rw [← h.depth, ← turn.depth_eq .openScope] at hmethod
  constructor
  · exact h.depth
  · rw [hfunctions, Errand.visited_append_of_none log rfl, List.length_append,
      List.length_singleton, Int.natCast_add, ← Int.add_assoc]
    exact h.collects.addFunction _
  · rw [hfunctions, List.map_append, List.sum_append, ← h.params]
    simp [ScopeTree.enroll, Scope.addFunction]
  · rw [Errand.opened_append_openScope, List.filter_append, List.filter_singleton,
      List.map_append, h.map_numberOf_methods]
    show (if c.depth = w.tree.depth then _ else _) = _
    by_cases hdepth : c.depth = w.tree.depth
    · rw [if_pos hdepth, hmethod.mpr hdepth, cond_true, List.map_singleton, hnumber]
    · rw [if_neg hdepth, Bool.eq_false_iff.mpr fun hm => hdepth (hmethod.mp hm), cond_false,
        List.map_nil, List.append_nil]

/-- A function that is opened changes nothing for a class that does not own it. -/
theorem of_not_ownedBy (h : c.BelongsTo d s log p) (howned : o.ownedBy d .classBody p = false) :
    c.BelongsTo d s (log ++ [.openScope o rule .function]) p := by
  have hfunctions : Errand.functionsOf d (log ++ [.openScope o rule .function]) p =
      Errand.functionsOf d log p := by
    rw [Errand.functionsOf, Errand.opened_append_openScope, List.filter_append,
      List.filter_singleton, howned, cond_false, List.append_nil, Errand.functionsOf]
  -- A method of the class would be owned by it.
  have hmethod : o.isMethodOf d p = false := by
    refine Bool.eq_false_iff.mpr fun hm => ?_
    rw [Occurrence.ownedBy_of_isMethodOf hm] at howned
    cases howned
  constructor
  · exact h.depth
  · rw [hfunctions, Errand.visited_append_of_none log rfl]
    exact h.collects
  · rw [hfunctions]
    exact h.params
  · rw [Errand.opened_append_openScope, List.filter_append, List.filter_singleton, hmethod,
      cond_false, List.append_nil, h.map_numberOf_methods]

end

end ClassScope.BelongsTo

namespace ScopeTree

variable {d : Dialect} {s : Settings} {log : List Errand} {w after : Walk} {o : Occurrence}
variable {rule : Rule}

/-- At the start there is no class. -/
theorem attributesClasses_start (lines : Lines Int) :
    (start lines).AttributesClasses d s [] := by
  intro k o hk
  cases hk

/-- An errand that visits nothing, opens nothing and leaves the classes as they are. -/
theorem attributesClasses_of_unchanged {e : Errand} (h : w.tree.AttributesClasses d s log)
    (hvisited : e.visited? = none) (hopened : ∀ form, e.opened? form = none)
    (hclasses : after.tree.classes = w.tree.classes) :
    after.tree.AttributesClasses d s (log ++ [e]) := by
  intro k p hk
  rw [Errand.opened_append_of_none log (hopened .classBody)] at hk
  obtain ⟨c, hc, hbelongs⟩ := h k p hk
  exact ⟨c, by rw [hclasses, hc], hbelongs.of_none hvisited (hopened .function)⟩

/-- A visit adds to the class that owns the occurrence. -/
theorem attributesClasses_visit (turn : Turn d s log (.visit o) w after)
    (h : w.tree.AttributesClasses d s log)
    (htree : after.tree = w.tree.contribute (Scope.absorb (d.contribution s o.place))) :
    after.tree.AttributesClasses d s (log ++ [.visit o]) := by
  intro k p hk
  rw [Errand.opened_append_of_none log rfl] at hk
  obtain ⟨c, hc, hbelongs⟩ := h k p hk
  refine ⟨_, ?_, hbelongs.visit o⟩
  rw [htree, classes_contribute, getElem?_modifyClass, hc, Option.map_some]
  simp only [turn.head_openClasses_iff .visit hk]

/-- A function that is opened is noted by the class that owns it. -/
theorem attributesClasses_push {name : Option Document} {lines : Lines Int}
    (turn : Turn d s log (.openScope o rule .function) w after)
    (h : w.tree.AttributesClasses d s log)
    (htree : after.tree =
      w.tree.push name lines (o.place.node.parameters.map Document.parameterName)) :
    after.tree.AttributesClasses d s (log ++ [.openScope o rule .function]) := by
  intro k p hk
  rw [Errand.opened_append_of_none log rfl] at hk
  obtain ⟨c, hc, hbelongs⟩ := h k p hk
  have hat : (Errand.openScope o rule .function).StartsAt o := .openScope
  have hhead := turn.head_openClasses_iff hat hk
  rw [htree, classes_push, getElem?_modifyClass, hc, Option.map_some, List.length_map]
  cases howned : o.ownedBy d .classBody p with
  | true =>
    have howner := turn.owner_eq_of_ownedBy hat (List.mem_of_getElem? hk) howned
    exact ⟨_, by rw [if_pos (hhead.mpr howned)], hbelongs.enroll turn howner⟩
  | false =>
    have hother : ¬ w.tree.openClasses.head? = some k := by
      intro hopen
      rw [hhead.mp hopen] at howned
      cases howned
    exact ⟨c, by rw [if_neg hother], hbelongs.of_not_ownedBy howned⟩

/-- A new class has nothing yet. -/
theorem attributesClasses_openClass {name superName : Option Document} {lines : Lines Int}
    (turn : Turn d s log (.openScope o rule .classBody) w after)
    (h : w.tree.AttributesClasses d s log)
    (htree : after.tree = w.tree.openClass name superName lines) :
    after.tree.AttributesClasses d s (log ++ [.openScope o rule .classBody]) := by
  have hlength := turn.tracks.length_classes
  intro k p hk
  rw [htree]
  show ∃ c, (w.tree.classes ++ [_])[k]? = some c ∧ _
  rcases Errand.getElem?_opened_openScope hk with ⟨hlt, hk⟩ | ⟨rfl, rfl⟩
  · obtain ⟨c, hc, hbelongs⟩ := h k p hk
    rw [List.getElem?_append_left (by omega), hc]
    exact ⟨c, rfl, hbelongs.of_none rfl rfl⟩
  · rw [← hlength, List.getElem?_concat_length]
    -- No function that was opened so far is owned by it.
    have hopened : ∀ f ∈ Errand.opened .function log, ¬ f.ownedBy d .classBody p := by
      intro f hf
      obtain ⟨rule', hmem⟩ := Errand.mem_opened.mp hf
      exact turn.not_ownedBy hmem .openScope
    have hfunctions : Errand.functionsOf d log p = [] := List.filter_eq_nil_iff.mpr hopened
    have hmethods : (Errand.opened .function log).filter (·.isMethodOf d p) = [] :=
      List.filter_eq_nil_iff.mpr fun f hf hm =>
        hopened f hf (Occurrence.ownedBy_of_isMethodOf hm)
    refine ⟨_, rfl, ClassScope.BelongsTo.of_none ⟨?_, ?_, ?_, ?_⟩ rfl rfl⟩
    · exact turn.depth_eq .openScope
    · rw [turn.filter_visited_eq_nil, hfunctions]
      exact ⟨rfl, rfl, Tally.counts_empty, Tally.counts_empty⟩
    · rw [hfunctions]
      rfl
    · rw [hmethods]
      rfl

/-- A turn keeps up what is counted for the classes. -/
theorem attributesClasses_perform {e : Errand} (turn : Turn d s log e w after)
    (h : w.tree.AttributesClasses d s log) : after.tree.AttributesClasses d s (log ++ [e]) := by
  rcases Walk.perform_cases turn.performed with ⟨o, rfl, htree⟩ |
    ⟨o, rule, name, lines, rfl, htree⟩ | ⟨o, rule, name, superName, lines, rfl, htree⟩ |
    ⟨o, rfl, htree⟩ | ⟨o, rfl, htree⟩
  · exact attributesClasses_visit turn h htree
  · exact attributesClasses_push turn h htree
  · exact attributesClasses_openClass turn h htree
  · exact attributesClasses_of_unchanged h rfl (fun _ => rfl) (by rw [pop_eq_ok htree])
  · exact attributesClasses_of_unchanged h rfl (fun _ => rfl) (by rw [closeClass_eq_ok htree])

end ScopeTree

/-! ### Classes at the end -/

namespace Dialect

variable {d : Dialect} {s : Settings} {root : Document}

/-- When a traversal has come to its end, each class has what the visited nodes contribute. -/
theorem attributesClasses_of_walk {w : Walk} (done : d.walk s root = .ok w) :
    w.tree.AttributesClasses d s (d.journal s root).errands :=
  invariant_of_walk (P := fun log w => w.tree.AttributesClasses d s log) done
    ScopeTree.attributesClasses_start
    fun _ _ _ _ turn h => ScopeTree.attributesClasses_perform turn h

/-- What is counted for a class. When a traversal has come to its end, there is one scope for
each class, which has what the visited nodes contribute that the class owns, a path for each
function that it owns, and the parameters of these functions. Its methods are those of the
functions that have no other function between them and the class, in the order they were
opened. -/
theorem classes_attributed {w : Walk} (done : d.walk s root = .ok w) :
    let j := d.journal s root
    d.Traversed s root w ∧
    w.tree.classes.length = (j.opened .classBody).length ∧
    ∀ o ∈ j.opened .classBody, ∃ (i : Nat) (c : ClassScope Int String),
      let functions := (j.opened .function).filter (·.ownedBy d .classBody o)
      j.scopeOf .classBody o = some i ∧ w.tree.classes[i]? = some c ∧
      c.toScope.Collects d s (1 + functions.length)
        (j.visited.filter (·.ownedBy d .classBody o)) ∧
      c.paramCount = (functions.map fun f => (f.place.node.parameters.length : Int)).sum ∧
      c.methods.map some = (functions.filter (·.isMethodOf d o)).map (j.scopeOf .function) := by
  intro j
  have hattributes : w.tree.AttributesClasses d s j.errands :=
    invariant_of_walk (P := fun log w => w.tree.AttributesClasses d s log) done
      ScopeTree.attributesClasses_start
      fun _ _ _ _ turn h => ScopeTree.attributesClasses_perform turn h
  refine ⟨traversed_of_walk done, (tracks_of_walk done).length_classes, ?_⟩
  intro o ho
  obtain ⟨k, hk⟩ := List.getElem?_of_mem ho
  obtain ⟨c, hc, hbelongs⟩ := hattributes k o hk
  refine ⟨k, c, ?_, hc, hbelongs.collects, hbelongs.params, ?_⟩
  · rw [scopeOf_of_mem_opened ho,
      Errand.numberOf_of_getElem? (pairwise_label_errands d s root) hk]
    exact congrArg some (Nat.zero_add k)
  · -- Methods are owned, so it does not matter that only owned functions are looked at.
    have hfilter : ((j.opened .function).filter (·.ownedBy d .classBody o)).filter
        (·.isMethodOf d o) = (j.opened .function).filter (·.isMethodOf d o) := by
      rw [List.filter_filter]
      refine List.filter_congr fun f _ => ?_
      cases hm : f.isMethodOf d o with
      | true => rw [Occurrence.ownedBy_of_isMethodOf hm, Bool.and_true]
      | false => rw [Bool.false_and]
    rw [hfilter, hbelongs.methods, List.map_map]
    refine List.map_congr_left fun f hf => ?_
    exact (scopeOf_of_mem_opened (List.mem_of_mem_filter hf)).symm

end Dialect

/-- In the module with nested scopes there are two classes, each with what it owns. -/
theorem classes_attributed_nested :
    ∃ w, Estree.dialect.walk {} Sample.nested = .ok w ∧
      let j := Estree.dialect.journal {} Sample.nested
      (j.opened .classBody).length = 2 ∧
      ∀ o ∈ j.opened .classBody, ∃ (i : Nat) (c : ClassScope Int String),
        let functions := (j.opened .function).filter (·.ownedBy Estree.dialect .classBody o)
        j.scopeOf .classBody o = some i ∧ w.tree.classes[i]? = some c ∧
        c.toScope.Collects Estree.dialect {} (1 + functions.length)
          (j.visited.filter (·.ownedBy Estree.dialect .classBody o)) ∧
        c.methods.map some =
          (functions.filter (·.isMethodOf Estree.dialect o)).map (j.scopeOf .function) := by
  obtain ⟨w, hw, -, htwo⟩ := Sample.walk_nested
  obtain ⟨-, hlength, hclasses⟩ := Dialect.classes_attributed hw
  rw [htwo] at hlength
  refine ⟨w, hw, hlength.symm, fun o ho => ?_⟩
  obtain ⟨i, c, hnumber, hc, hcollects, -, hmethods⟩ := hclasses o ho
  exact ⟨i, c, hnumber, hc, hcollects, hmethods⟩

end CodeMetrics
