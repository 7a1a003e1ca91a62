import CodeMetrics.Proofs.Result
import CodeMetrics.Proofs.Scope.Ownership
import CodeMetrics.Proofs.Traversal.View

/-!
# `CodeMetrics.Proofs.Traversal.Record`: functions and classes without their numbers

The scopes of a traversal have numbers, and a function that has no name of its own gets one with
a number in it. `Dialect.functionRecords` and `Dialect.classRecords` say what is known of the
functions and classes of a traversal apart from that. The names are those of the nodes that
open the functions, as the journal of the traversal lists them.

These are the records of the yield of the tree (`functionRecords_eq`, `classRecords_eq`), since
the yield has its functions in the order they are opened (`functionNames_of_harvest`).
-/

set_option autoImplicit false

namespace CodeMetrics

/-! ### Names of functions -/

/-- The name of the scope that an occurrence opens, without the names that are handed out to
scopes that have none. -/
def Occurrence.staticName (d : Dialect) (o : Occurrence) : Option Document :=
  ((d.ruleFor o.place.node).bind Rule.naming).bind (·.name? o.place)

namespace Errand

variable {d : Dialect} {s : Settings}

/-- The script of more errands comes behind. -/
theorem script_append (es fs : List Errand) :
    script d s (es ++ fs) = script d s es ++ script d s fs := by
  fun_induction script d s es with
  | case1 => rfl
  | case2 e rest ih => rw [List.cons_append, script, ← List.append_assoc, ih, List.cons_append]

/-- The static names of the functions that come out of some errands, in the order they are
opened. -/
def functionNames (d : Dialect) (s : Settings) (es : List Errand) : List (Option Document) :=
  (opened .function (script d s es)).map (·.staticName d)

theorem functionNames_append (es fs : List Errand) :
    functionNames d s (es ++ fs) = functionNames d s es ++ functionNames d s fs := by
  simp [functionNames, script_append, opened]

/-- A visit opens what comes out of it. -/
theorem functionNames_visit (o : Occurrence) :
    functionNames d s [.visit o] = functionNames d s ((Errand.visit o).next d s) := by
  rw [functionNames, script, List.append_nil]
  rfl

/-- Opening a scope opens nothing else. -/
theorem functionNames_openScope (o : Occurrence) (rule : Rule) (form : ScopeForm) :
    functionNames d s [.openScope o rule form] =
      if form = .function then [o.staticName d] else [] := by
  rw [functionNames, script]
  simp only [next, List.nil_append]
  rw [script]
  cases form <;> rfl

/-- Closing a scope opens nothing. -/
theorem functionNames_closeScope (o : Occurrence) (form : ScopeForm) :
    functionNames d s [.closeScope o form] = [] := by
  rw [functionNames, script]
  simp only [next, List.nil_append]
  rw [script]
  rfl

end Errand

namespace Yield

/-- The static names of the functions of a yield. -/
def names (y : Yield Gain) : List (Option Document) :=
  y.functions.map FunctionYield.name

@[simp] theorem names_append (y z : Yield Gain) : (y ++ z).names = y.names ++ z.names := by
  simp [names, Function.comp_def, FunctionYield.shift]

theorem names_ofContribution (s : Settings) (c : Contribution) :
    (ofContribution s c).names = [] := rfl

/-- A node of an unknown kind yields nothing but what is reported about it. -/
theorem exists_of_ofUnknown {d : Dialect} {s : Settings} {node : Document} {y : Yield Gain}
    (h : ofUnknown d s node = .ok y) : ∃ notes, y = only 0 [] notes := by
  unfold ofUnknown at h
  obtain ⟨error, -, h⟩ := exists_of_bind_eq_ok h
  cases hstrict : s.on .strict with
  | true =>
    rw [hstrict] at h
    cases h
  | false =>
    rw [hstrict] at h
    cases h
    exact ⟨_, rfl⟩

theorem names_of_ofUnknown {d : Dialect} {s : Settings} {node : Document} {y : Yield Gain}
    (h : ofUnknown d s node = .ok y) : y.names = [] := by
  obtain ⟨notes, rfl⟩ := exists_of_ofUnknown h
  rfl

theorem names_enclose (form : ScopeForm) (rule : Rule) (p : Placed) (lines : Lines Int)
    (y : Yield Gain) : (y.enclose Gain.ofFunction form rule p lines).names =
      (if form = .function then [rule.naming.bind (·.name? p)] else []) ++ y.names := by
  cases form with
  | classBody => rfl
  | function => simp [names, enclose, inFunction, Function.comp_def, FunctionYield.nested]

end Yield

namespace Dialect

variable {d : Dialect} {s : Settings}

/-- The functions of some children are opened one child after the other. -/
theorem functionNames_visits {parent : Document} {cs : List Child} {os : List Occurrence}
    (hplaces : os.map Occurrence.place = cs.map (·.placed parent))
    (hvisit : ∀ o ∈ os, ∀ lines y, d.harvest s lines o.place = .ok y →
      Errand.functionNames d s [.visit o] = y.names)
    {lines : Lines Int} {y : Yield Gain} (h : d.harvestAll s lines parent cs = .ok y) :
    Errand.functionNames d s (os.map .visit) = y.names := by
  induction cs generalizing os y with
  | nil =>
    rw [List.map_nil, List.map_eq_nil_iff] at hplaces
    rw [harvestAll] at h
    cases h
    subst hplaces
    simp [Errand.functionNames, Errand.script, Errand.opened, Yield.names]
  | cons c rest ih =>
    cases os with
    | nil => cases hplaces
    | cons o os =>
      obtain ⟨hplace, hplaces⟩ := List.cons.inj hplaces
      rw [harvestAll] at h
      obtain ⟨first, hfirst, h⟩ := exists_of_bind_eq_ok h
      obtain ⟨others, hothers, h⟩ := exists_of_bind_eq_ok h
      cases h
      have hharvest : d.harvest s lines o.place = .ok first := by
        rw [hplace]
        exact hfirst
      have hrest := ih hplaces (fun o ho => hvisit o (List.mem_cons_of_mem _ ho)) hothers
      rw [List.map_cons, ← List.singleton_append, Errand.functionNames_append, hrest,
        hvisit o List.mem_cons_self lines first hharvest, Yield.names_append]

/-- The functions of a yield have the static names of the nodes that open them, in the order
they are opened. -/
theorem functionNames_of_harvest {o : Occurrence} {lines : Lines Int} {y : Yield Gain}
    (h : d.harvest s lines o.place = .ok y) : Errand.functionNames d s [.visit o] = y.names := by
  induction hsize : o.place.node.size using Nat.strongRecOn generalizing o lines y with
  | ind size ih =>
    -- Whatever a rule leaves to visit is a child, so its node is smaller.
    have hvisits : ∀ (ignored : List String) (keep : Child → Bool) (lines : Lines Int)
        (y : Yield Gain), d.harvestAll s lines o.place.node
          ((o.place.node.children ignored).filter keep) = .ok y →
        Errand.functionNames d s ((o.childrenWhere (o.place.node.children ignored) keep).map
          .visit) = y.names := by
      intro ignored keep lines y hall
      refine functionNames_visits (o.map_place_childrenWhere _ keep) (fun v hv lines z hz => ?_)
        hall
      obtain ⟨c, number, hc, -, rfl⟩ := Occurrence.mem_childrenWhere.mp hv
      have hlt : c.node.size < size :=
        hsize ▸ Document.size_lt_of_mem_children (List.mem_of_getElem? hc)
      exact ih _ hlt hz rfl
    rw [harvest] at h
    rw [Errand.functionNames_visit]
    cases hrule : d.ruleFor o.place.node with
    | none =>
      simp only [hrule] at h
      obtain ⟨unknown, hunknown, h⟩ := exists_of_bind_eq_ok h
      obtain ⟨below, hbelow, h⟩ := exists_of_bind_eq_ok h
      cases h
      have hnext : (Errand.visit o).next d s =
          (o.childrenWhere (o.place.node.children []) fun _ => true).map .visit := by
        simp only [Errand.next, ignored?, hrule]
        rfl
      rw [hnext, hvisits [] _ lines below (by rwa [List.filter_true]), Yield.names_append,
        Yield.names_of_ofUnknown hunknown, List.nil_append]
    | some rule =>
      simp only [hrule] at h
      obtain ⟨c, hc, h⟩ := exists_of_bind_eq_ok h
      have hnext : (Errand.visit o).next d s = Errand.below rule o c.ignored := by
        simp only [Errand.next, ignored?, hrule, eq_ok_of_mapError hc]
        rfl
      rw [hnext]
      unfold Errand.below
      cases hopens : rule.opens with
      | none =>
        simp only [hopens] at h
        obtain ⟨below, hbelow, h⟩ := exists_of_bind_eq_ok h
        cases h
        show Errand.functionNames d s ((o.childrenWhere _ fun _ => true).map .visit) = _
        rw [hvisits c.ignored _ lines below (by rwa [List.filter_true]), Yield.names_append]
        rfl
      | some form =>
        simp only [hopens] at h
        obtain ⟨outside, houtside, h⟩ := exists_of_bind_eq_ok h
        obtain ⟨found, hfound, h⟩ := exists_of_bind_eq_ok h
        obtain ⟨inside, hinside, h⟩ := exists_of_bind_eq_ok h
        cases h
        have hstatic : o.staticName d = rule.naming.bind (·.name? o.place) := by
          simp only [Occurrence.staticName, hrule, Option.bind_some]
        simp only [Errand.functionNames_append, Errand.functionNames_openScope,
          Errand.functionNames_closeScope, hvisits c.ignored _ _ _ houtside,
          hvisits c.ignored _ _ _ hinside, hstatic, Yield.names_append, Yield.names_enclose,
          Yield.names_ofContribution, List.nil_append, List.append_nil, List.append_assoc]

end Dialect

/-! ### What is known of the functions and classes of a tree -/

/-- The records of the functions of a traversal, in the order they were opened. -/
def Dialect.functionRecords (d : Dialect) (s : Settings) (root : Document) (w : Walk) :
    List FunctionRecord :=
  List.zipWith (fun o f => ⟨o.staticName d, f.paramNames, f.lines, f.counts⟩)
    ((d.journal s root).opened .function) w.tree.functions

/-- The records of the classes of a traversal, in the order they were opened. -/
def Dialect.classRecords (d : Dialect) (s : Settings) (root : Document) (w : Walk) :
    List ClassRecord :=
  w.tree.classes.map fun c =>
    ⟨c.name, c.superName, c.lines, c.depth, c.counts,
      (c.methods.filterMap fun i => (d.functionRecords s root w)[i - 1]? : List FunctionRecord)⟩

/-- The scopes of functions have the records of the functions. -/
theorem FunctionYield.zipWith_scopes (base current index anonymous : Nat)
    (fs : List (FunctionYield Gain)) :
    List.zipWith (fun name (f : Scope Int String) =>
        (⟨name, f.paramNames, f.lines, f.counts⟩ : FunctionRecord))
      (fs.map FunctionYield.name) (scopes base current index anonymous fs) =
      fs.map FunctionYield.record := by
  induction fs generalizing index anonymous with
  | nil => rfl
  | cons f rest ih =>
    have hcounts : (f.scope base current index anonymous).counts =
        .ofFunction f.params.length + f.gain.counts := Scope.counts_collect _ _
    rw [List.map_cons, scopes, List.zipWith_cons_cons, ih, List.map_cons, hcounts]
    rfl

/-- The scopes of classes have the records of the classes. -/
theorem ClassYield.map_scopes (fs : List (FunctionYield Gain)) (index : Nat)
    (cs : List (ClassYield Gain)) :
    (scopes 0 0 0 index cs).map (fun c =>
        (⟨c.name, c.superName, c.lines, c.depth, c.counts,
          (c.methods.filterMap fun i => (fs.map FunctionYield.record)[i - 1]? :
            List FunctionRecord)⟩ : ClassRecord)) =
      cs.map (ClassYield.record fs) := by
  induction cs generalizing index with
  | nil => rfl
  | cons c rest ih =>
    have hcounts : (c.scope 0 0 0 index).counts = .ofFunction 0 + c.gain.counts :=
      Scope.counts_collect _ _
    have hmethods : (c.scope 0 0 0 index).methods = c.methods.map (· + 1) := by
      simp [scope]
    have hdepth : (c.scope 0 0 0 index).depth = c.depth := Nat.zero_add _
    rw [scopes, List.map_cons, ih, List.map_cons, hcounts, hmethods, hdepth]
    simp only [record, FunctionYield.recordsAt, List.filterMap_map, Function.comp_def,
      Nat.add_sub_cancel, List.getElem?_map]
    rfl

namespace Dialect

variable {d : Dialect} {s : Settings} {root : Document}

/-- A traversal that comes to its end is the yield of the tree, from the start. -/
theorem exists_yield {w : Walk} (h : d.walk s root = .ok w) :
    ∃ lines y, root.lines? = .ok (some lines) ∧
      d.harvest s lines { node := d.typedRoot root } = .ok y ∧
      w = { tree := ScopeTree.start lines : Walk }.extend y := by
  rw [walk_eq_extend] at h
  obtain ⟨found, hfound, h⟩ := exists_of_bind_eq_ok h
  cases found with
  | none => cases h
  | some lines =>
    obtain ⟨y, hy, h⟩ := exists_of_bind_eq_ok h
    cases h
    exact ⟨lines, y, eq_ok_of_mapError hfound, hy, rfl⟩

/-- A traversal comes to its end if the root has usable lines and the tree has a yield. -/
theorem exists_walk_iff :
    (∃ w, d.walk s root = .ok w) ↔ ∃ lines, root.lines? = .ok (some lines) ∧
      View.ofResult (d.harvest s lines { node := d.typedRoot root }) ≠ ⊤ := by
  constructor
  · rintro ⟨w, hw⟩
    obtain ⟨lines, y, husable, hy, -⟩ := exists_yield hw
    refine ⟨lines, husable, ?_⟩
    rw [hy]
    exact WithTop.coe_ne_top
  · rintro ⟨lines, husable, hne⟩
    rw [walk_eq_extend, husable]
    cases hy : d.harvest s lines { node := d.typedRoot root } with
    | error e =>
      rw [hy] at hne
      exact absurd rfl hne
    | ok y =>
      refine ⟨{ tree := ScopeTree.start lines : Walk }.extend y, ?_⟩
      show (d.harvest s lines { node := d.typedRoot root } >>= _) = _
      rw [hy]
      rfl

/-- What a traversal knows of its functions is what the yield has. -/
theorem functionRecords_eq {w : Walk} {lines : Lines Int} {y : Yield Gain}
    (done : d.walk s root = .ok w)
    (hy : d.harvest s lines { node := d.typedRoot root } = .ok y)
    (hw : w = { tree := ScopeTree.start lines : Walk }.extend y) :
    d.functionRecords s root w = y.functions.map FunctionYield.record := by
  have hnames : ((d.journal s root).opened .function).map (·.staticName d) = y.names := by
    rw [Journal.opened, (performAll_of_walk done).1]
    exact functionNames_of_harvest (o := d.top root) hy
  have hfunctions : w.tree.functions = FunctionYield.scopes 0 0 0 0 y.functions := by
    rw [hw]
    rfl
  rw [← FunctionYield.zipWith_scopes 0 0 0 0 y.functions, ← hfunctions]
  show _ = List.zipWith _ y.names _
  rw [← hnames, List.zipWith_map_left]
  rfl

/-- What a traversal knows of its classes is what the yield has. -/
theorem classRecords_eq {w : Walk} {lines : Lines Int} {y : Yield Gain}
    (done : d.walk s root = .ok w)
    (hy : d.harvest s lines { node := d.typedRoot root } = .ok y)
    (hw : w = { tree := ScopeTree.start lines : Walk }.extend y) :
    d.classRecords s root w = y.classes.map (ClassYield.record y.functions) := by
  have hclasses : w.tree.classes = ClassYield.scopes 0 0 0 0 y.classes := by
    rw [hw]
    rfl
  unfold classRecords
  rw [functionRecords_eq done hy hw, hclasses]
  exact ClassYield.map_scopes y.functions 0 y.classes

end Dialect

end CodeMetrics
