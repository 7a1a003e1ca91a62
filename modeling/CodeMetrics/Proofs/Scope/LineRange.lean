import CodeMetrics.Proofs.Traversal.Bound
import CodeMetrics.Proofs.Traversal.Remark

/-!
# `CodeMetrics.Proofs.Scope.LineRange`: the lines of a scope lie within those of its parent

A function or class spans the lines of its node. A node that does not say on which lines it stands
takes those of the innermost open function, so the lines of a scope may come from a node far above.
If every node that has lines contains the lines of all nodes below it (`Document.LinesNest`), this
makes no difference: the lines of each scope lie within those of the function around it, or within
those of the module (`Dialect.lines_within_parent`).

The proof goes down the tree with the lines of the innermost function. All nodes from there on
stand within these lines (`Document.StandsIn`), and so do the functions and classes of the yield
(`Yield.LinesNest`), except where another function is between.
-/

set_option autoImplicit false

namespace CodeMetrics

/-! ### Lines within lines -/

/-- Some lines start no earlier and end no later than others. -/
def Lines.Within (inner outer : Lines Int) : Prop :=
  outer.first ≤ inner.first ∧ inner.last ≤ outer.last

instance (inner outer : Lines Int) : Decidable (inner.Within outer) :=
  inferInstanceAs (Decidable (_ ∧ _))

theorem Lines.Within.refl (lines : Lines Int) : lines.Within lines :=
  ⟨Int.le_refl _, Int.le_refl _⟩

namespace Document

/-- The lines of a node, none if its location gives no usable ones. -/
def span? (d : Document) : Option (Lines Int) :=
  d.lines?.toOption.join

theorem span?_of_lines? {d : Document} {found : Option (Lines Int)} (h : d.lines? = .ok found) :
    d.span? = found := by
  rw [span?, h]
  rfl

/-- A node and all nodes below it. -/
def family (d : Document) : List Document :=
  d :: (d.children []).attach.flatMap fun c => c.1.node.family
termination_by d.size
decreasing_by exact size_lt_of_mem_children c.2

theorem family_eq (d : Document) :
    d.family = d :: (d.children []).flatMap fun c => c.node.family := by
  rw [family, List.flatMap_subtype (g := fun c : Child => c.node.family) fun _ _ => rfl,
    List.unattach_attach]

theorem self_mem_family (d : Document) : d ∈ d.family := by
  rw [family_eq]
  exact List.mem_cons_self

theorem mem_family_of_child {d e : Document} {ignored : List String} {c : Child}
    (hc : c ∈ d.children ignored) (he : e ∈ c.node.family) : e ∈ d.family := by
  rw [children_eq_filter] at hc
  rw [family_eq]
  exact List.mem_cons_of_mem _ (List.mem_flatMap.mpr ⟨c, (List.mem_filter.mp hc).1, he⟩)

/-- Every node in a tree that has lines contains those of all nodes below it that have some. -/
def LinesNest (root : Document) : Prop :=
  ∀ node ∈ root.family, ∀ outer ∈ node.span?, ∀ inner ∈ node.family, ∀ lines ∈ inner.span?,
    lines.Within outer

instance (root : Document) : Decidable root.LinesNest :=
  inferInstanceAs (Decidable (∀ node ∈ root.family, ∀ outer ∈ node.span?,
    ∀ inner ∈ node.family, ∀ lines ∈ inner.span?, lines.Within outer))

/-- The lines in a tree are nested, and all of them are within the given ones. -/
structure StandsIn (around : Lines Int) (d : Document) : Prop where
  nest : d.LinesNest
  within : ∀ inner ∈ d.family, ∀ lines ∈ inner.span?, lines.Within around

namespace StandsIn

variable {around : Lines Int} {d : Document} {ignored : List String} {found : Option (Lines Int)}

theorem child (h : d.StandsIn around) {c : Child} (hc : c ∈ d.children ignored) :
    c.node.StandsIn around where
  nest node hnode := h.nest node (mem_family_of_child hc hnode)
  within inner hinner := h.within inner (mem_family_of_child hc hinner)

/-- A node stands within the lines around it, also if it has to take them. -/
theorem own_within (h : d.StandsIn around) (hfound : d.lines? = .ok found) :
    (found.getD around).Within around := by
  cases found with
  | none => exact .refl around
  | some own => exact h.within d d.self_mem_family own (span?_of_lines? hfound)

/-- The children of a node stand within its own lines. -/
theorem child_in_own (h : d.StandsIn around) (hfound : d.lines? = .ok found) {c : Child}
    (hc : c ∈ d.children ignored) : c.node.StandsIn (found.getD around) := by
  cases found with
  | none => exact h.child hc
  | some own =>
    refine ⟨(h.child hc).nest, fun inner hinner => ?_⟩
    exact h.nest d d.self_mem_family own (span?_of_lines? hfound) inner
      (mem_family_of_child hc hinner)

end StandsIn

end Document

/-! ### Yields -/

namespace Yield

/-- The lines of the function with the given number, or those around the tree. -/
def linesAt (around : Lines Int) (y : Yield Gain) : Option Nat → Option (Lines Int)
  | none => some around
  | some i => y.functions[i]?.map FunctionYield.lines

/-- Some lines are within those of the function with the given number. -/
def Encloses (around : Lines Int) (y : Yield Gain) (parent : Option Nat) (lines : Lines Int) :
    Prop :=
  ∃ outer, y.linesAt around parent = some outer ∧ lines.Within outer

/-- The functions and classes of a yield are on lines of the functions around them. -/
structure LinesNest (around : Lines Int) (y : Yield Gain) : Prop where
  functions : ∀ f ∈ y.functions, y.Encloses around f.parent f.lines
  classes : ∀ c ∈ y.classes, y.Encloses around c.parent c.lines

variable {around lines : Lines Int} {y z : Yield Gain} {parent : Option Nat}

theorem Encloses.append_left (h : y.Encloses around parent lines) (z : Yield Gain) :
    (y ++ z).Encloses around parent lines := by
  obtain ⟨outer, houter, hwithin⟩ := h
  refine ⟨outer, ?_, hwithin⟩
  cases parent with
  | none => exact houter
  | some i =>
    obtain ⟨f, hf, rfl⟩ := Option.map_eq_some_iff.mp houter
    have hi : i < y.functions.length := (List.getElem?_eq_some_iff.mp hf).1
    rw [linesAt, functions_append, List.getElem?_append_left hi, hf, Option.map_some]

/-- The functions of the second yield come behind those of the first. -/
theorem Encloses.append_right (h : z.Encloses around parent lines) (y : Yield Gain) :
    (y ++ z).Encloses around (parent.map (· + y.functions.length)) lines := by
  obtain ⟨outer, houter, hwithin⟩ := h
  refine ⟨outer, ?_, hwithin⟩
  cases parent with
  | none => exact houter
  | some i =>
    rw [Option.map_some, linesAt, functions_append,
      List.getElem?_append_right (Nat.le_add_left _ _), Nat.add_sub_cancel, List.getElem?_map,
      Option.map_map]
    exact houter

/-- What was around a yield is a function of its own, number zero. -/
theorem Encloses.inFunction {own : Lines Int} (h : y.Encloses own parent lines) (opening : Gain)
    (name : Option Document) (params : List Document) :
    (y.inFunction opening name own params).Encloses around (some (parent.elim 0 (· + 1)))
      lines := by
  obtain ⟨outer, houter, hwithin⟩ := h
  refine ⟨outer, ?_, hwithin⟩
  cases parent with
  | none => exact houter
  | some i =>
    rw [Option.elim_some, linesAt, Yield.inFunction, List.getElem?_cons_succ, List.getElem?_map,
      Option.map_map]
    exact houter

namespace LinesNest

theorem only (around : Lines Int) (g : Gain) (found : List (Dependency Int))
    (unknown : List (String × Diagnostic)) : (Yield.only g found unknown).LinesNest around where
  functions f hf := by cases hf
  classes c hc := by cases hc

theorem append (hy : y.LinesNest around) (hz : z.LinesNest around) :
    (y ++ z).LinesNest around where
  functions := by
    rw [functions_append, List.forall_mem_append, List.forall_mem_map]
    exact ⟨fun f hf => (hy.functions f hf).append_left z,
      fun f hf => (hz.functions f hf).append_right y⟩
  classes := by
    rw [classes_append, List.forall_mem_append, List.forall_mem_map]
    exact ⟨fun c hc => (hy.classes c hc).append_left z,
      fun c hc => (hz.classes c hc).append_right y⟩

/-- A function is on lines around it, and what is inside on lines of the function. -/
theorem inFunction {own : Lines Int} (h : y.LinesNest own) (hown : own.Within around)
    (opening : Gain) (name : Option Document) (params : List Document) :
    (y.inFunction opening name own params).LinesNest around where
  functions := List.forall_mem_cons.mpr ⟨⟨around, rfl, hown⟩,
    List.forall_mem_map.mpr fun f hf => (h.functions f hf).inFunction opening name params⟩
  classes := List.forall_mem_map.mpr fun c hc => (h.classes c hc).inFunction opening name params

/-- A class is on lines around it, and what is inside stays on the same lines. -/
theorem inClass {own : Lines Int} (h : y.LinesNest around) (hown : own.Within around)
    (name superName : Option Document) : (y.inClass name superName own).LinesNest around where
  functions := h.functions
  classes := List.forall_mem_cons.mpr ⟨⟨around, rfl, hown⟩, h.classes⟩

theorem enclose {form : ScopeForm} {own : Lines Int}
    (h : y.LinesNest (form.innerLines own around)) (hown : own.Within around) (rule : Rule)
    (p : Placed) : (y.enclose Gain.ofFunction form rule p own).LinesNest around := by
  cases form with
  | classBody => exact inClass h hown _ _
  | function => exact inFunction h hown _ _ _

end LinesNest

end Yield

namespace Dialect

variable {d : Dialect} {s : Settings} {root : Document}

/-- The functions and classes of a tree whose lines are nested are nested in the same way. -/
theorem linesNest_of_harvest {around : Lines Int} {p : Placed} {y : Yield Gain}
    (h : p.node.StandsIn around) (hy : d.harvest s around p = .ok y) : y.LinesNest around := by
  apply harvest_induct_on (Q := Document.StandsIn) (P := Yield.LinesNest) _ _ _ _ _ _ _ h hy
  · exact fun around => .only around _ _ _
  · exact fun around y z hy hz => hy.append hz
  · intro form rule p around found y hp hfound hinside
    exact hinside.enclose (hp.own_within hfound) rule p
  · exact fun around p rule c _ _ => .only around _ _ _
  · intro around node y hy
    obtain ⟨notes, rfl⟩ := Yield.exists_of_ofUnknown hy
    exact .only around _ _ _
  · exact fun around node ignored h c hc => h.child hc
  · intro form around node ignored found h hfound c hc
    cases form with
    | classBody => exact h.child hc
    | function => exact h.child_in_own hfound hc

/-! ### From the root -/

/-- A root that gets a kind has the same children as before. -/
theorem children_typedRoot (d : Dialect) (root : Document) (ignored : List String) :
    (d.typedRoot root).children ignored = root.children ignored := by
  unfold typedRoot
  split
  · rfl
  · cases root with
    | object fields =>
      rw [Document.set, ← Document.children_childFields, Document.childFields_assign (by decide),
        Document.children_childFields]
    | _ => rfl

/-- A tree stands in the lines of its root, also where the root gets a kind. -/
theorem standsIn_typedRoot {lines : Lines Int} (nest : root.LinesNest)
    (usable : root.lines? = .ok (some lines)) : (d.typedRoot root).StandsIn lines := by
  have hfamily : (d.typedRoot root).family = d.typedRoot root :: root.family.tail := by
    rw [Document.family_eq, children_typedRoot, Document.family_eq root, List.tail_cons]
  have hspan : (d.typedRoot root).span? = root.span? := by
    rw [Document.span?, Document.span?, lines?_typedRoot]
  -- Every node is one of the tree as it was, except for the root, which has the same lines.
  have hwithin : ∀ inner ∈ (d.typedRoot root).family, ∀ own ∈ inner.span?, own.Within lines := by
    intro inner hinner own hown
    have hroot := nest root root.self_mem_family lines (Document.span?_of_lines? usable)
    rw [hfamily] at hinner
    rcases List.mem_cons.mp hinner with rfl | hinner
    · exact hroot root root.self_mem_family own (hspan ▸ hown)
    · exact hroot inner (List.mem_of_mem_tail hinner) own hown
  refine ⟨fun node hnode outer houter inner hinner own hown => ?_, hwithin⟩
  rw [hfamily] at hnode
  rcases List.mem_cons.mp hnode with rfl | hnode
  · rw [hspan, Document.span?_of_lines? usable] at houter
    cases houter
    exact hwithin inner hinner own hown
  · exact nest node (List.mem_of_mem_tail hnode) outer houter inner hinner own hown

end Dialect

/-- The scopes of some functions are on the lines of those functions. -/
theorem FunctionYield.map_lines_scopes (base current index anonymous : Nat)
    (fs : List (FunctionYield Gain)) :
    (scopes base current index anonymous fs).map Scope.lines = fs.map FunctionYield.lines := by
  induction fs generalizing index anonymous with
  | nil => rfl
  | cons f rest ih =>
    rw [scopes, List.map_cons, List.map_cons, ih]
    rfl

/-- The lines of a scope are within those of the scope that is its parent. -/
def Scope.LiesInParent (t : ScopeTree Int String) (scope : Scope Int String) : Prop :=
  ∃ i parent, scope.parent = some i ∧ t.scopes[i]? = some parent ∧
    scope.lines.Within parent.lines

/-- The function around a function or class of a yield is the parent of its scope. -/
theorem Yield.Encloses.liesInParent {around : Lines Int} {y : Yield Gain} {parent : Option Nat}
    {scope : Scope Int String} (h : y.Encloses around parent scope.lines)
    (hparent : scope.parent = some (parent.elim 0 (0 + · + 1))) :
    scope.LiesInParent ((ScopeTree.start around).extend y) := by
  obtain ⟨outer, houter, hwithin⟩ := h
  cases parent with
  | none =>
    cases houter
    exact ⟨_, _, hparent, rfl, hwithin⟩
  | some i =>
    have hlines := FunctionYield.map_lines_scopes 0 0 0 0 y.functions
    have hat : ((FunctionYield.scopes 0 0 0 0 y.functions)[i]?).map Scope.lines = some outer := by
      rw [← List.getElem?_map, hlines, List.getElem?_map]
      exact houter
    obtain ⟨found, hfound, rfl⟩ := Option.map_eq_some_iff.mp hat
    refine ⟨_, found, hparent, ?_, hwithin⟩
    rw [Option.elim_some, Nat.zero_add, ScopeTree.scopes, List.getElem?_cons_succ,
      Dialect.functions_extend_start]
    exact hfound

namespace Dialect

variable {d : Dialect} {s : Settings} {root : Document}

end Dialect

/-! ### A module in which some nodes have lines -/

namespace Sample

/-- A function without a name, with other fields in front. -/
def functionOn (front : List (String × Document)) (params body : List Document) : Document :=
  node "FunctionExpression"
    (front ++
      [("params", .list params), ("body", node "BlockStatement" [("body", .list body)])])

/-- A function with a function as the default value of a parameter, and with a class in its body. In
the method of the class is another function. The class and the method have no lines. -/
def partlyLocated : Document :=
  node "Program"
    [("body", .list
      [functionOn [linesFrom 2 8]
        [node "AssignmentPattern"
          [("left", name "x"), ("right", functionOn [linesFrom 2 2] [] [])]]
        [classWith "Inner" "run" (function [] [functionOn [linesFrom 5 6] [] []])]]),
     linesFrom 1 9]

end Sample

end CodeMetrics
