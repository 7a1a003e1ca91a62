import CodeMetrics.Dialect.Estree
import CodeMetrics.Proofs.Document.Reordering
import CodeMetrics.Proofs.Node.Name
import CodeMetrics.Proofs.Rule.Asking
import CodeMetrics.Proofs.Traversal.Count
import CodeMetrics.Proofs.Traversal.Record
import CodeMetrics.Proofs.Traversal.Warning

/-!
# `CodeMetrics.Proofs.Traversal.Concatenation`: modules of two parts

The statements of a module can be split in two. The traversal of the whole is that of the first
part, followed by that of the second (`Estree.walk_concatenation`). What this means is said by
`Walk.followedBy`, without the traversals: counts add up, functions and classes of the second part
come behind those of the first with numbers that are moved up, and so do the numbers in the names
of functions that have no name of their own.

A statement yields the same in both modules. It can tell the modules apart only by its parent, and
of that it asks the kind (`Dialect.harvest_item`). So the yield of the whole is that of the first
part and that of the second, and it remains to compare a walk that is extended by a yield with the
walk that the yield has from the start (`Walk.extend_eq_followedBy`).
-/

set_option autoImplicit false

namespace CodeMetrics

/-! ### One walk after another -/

namespace ScopeTree

/-- The number of a function behind `n` others. The module stays number zero. -/
def renumber (n i : Nat) : Nat :=
  if i = 0 then 0 else i + n

/-- The names of functions in a row, from those that they have of their own. The others take
names with the numbers after `taken`. -/
def namesFrom : Nat → List (Option Document) → List Document
  | _, [] => []
  | taken, some name :: rest => name :: namesFrom taken rest
  | taken, none :: rest => .string (anonymousName (taken + 1)) :: namesFrom (taken + 1) rest

/-- A function around has its number behind `n` others, and none is the module. -/
theorem renumber_elim (n : Nat) (parent : Option Nat) :
    parent.elim 0 (n + · + 1) = renumber n (parent.elim 0 (0 + · + 1)) := by
  cases parent with
  | none => rfl
  | some i =>
    show n + i + 1 = if 0 + i + 1 = 0 then 0 else 0 + i + 1 + n
    rw [if_neg (by omega)]
    omega

end ScopeTree

/-- The function behind `n` others, with another name. -/
def Scope.behind (n : Nat) (name : Document) (f : Scope Int String) : Scope Int String :=
  { f with
    index := f.index + n
    name := some name
    parent := f.parent.map (ScopeTree.renumber n) }

/-- The class behind some functions and classes. -/
def ClassScope.behind (functions classes : Nat) (c : ClassScope Int String) :
    ClassScope Int String :=
  { c with
    index := c.index + classes
    parent := c.parent.map (ScopeTree.renumber functions)
    methods := c.methods.map (· + functions) }

/-- The module of two parts, of which each has a path of its own to start with. -/
def Scope.joined (a b : Scope Int String) : Scope Int String :=
  { a with
    logical := a.logical + b.logical
    cyclomatic := a.cyclomatic + b.cyclomatic - 1
    paramCount := a.paramCount + b.paramCount
    operators := a.operators.join b.operators
    operands := a.operands.join b.operands }

/-- The scopes of two parts of a module. `names` are those that the functions of the second part
have of their own. -/
def ScopeTree.followedBy (names : List (Option Document)) (t u : ScopeTree Int String) :
    ScopeTree Int String :=
  { t with
    module := t.module.joined u.module
    functions := t.functions ++
      List.zipWith (Scope.behind t.functions.length) (namesFrom t.anonymous names) u.functions
    classes := t.classes ++
      u.classes.map (ClassScope.behind t.functions.length t.classes.length)
    anonymous := t.anonymous + u.anonymous }

/-- The walks of two parts of a module, one after the other. Of the problems of the second part
those are left out whose kinds the first part has recorded. -/
def Walk.followedBy (names : List (Option Document)) (v w : Walk) : Walk :=
  let fresh := (w.unsupported.zip w.errors).filter fun entry => !v.unsupported.contains entry.1
  { tree := v.tree.followedBy names w.tree
    found := v.found ++ w.found
    errors := v.errors ++ fresh.map Prod.snd
    unsupported := v.unsupported ++ fresh.map Prod.fst }

/-! ### A walk that is extended -/

namespace FunctionYield

open ScopeTree

/-- The names of the scopes of some functions. -/
theorem names_scopes (base current index anonymous : Nat) (fs : List (FunctionYield Gain)) :
    (scopes base current index anonymous fs).map Scope.name =
      (namesFrom anonymous (fs.map name)).map some := by
  induction fs generalizing index anonymous with
  | nil => rfl
  | cons f rest ih =>
    rw [scopes, List.map_cons, ih, List.map_cons]
    cases hname : f.name with
    | none => simp [namesFrom, unnamed, scope, Scope.collect, hname]
    | some name => simp [namesFrom, unnamed, scope, Scope.collect, hname]

/-- The scopes of some functions, with `n` others before them and from the start. -/
theorem scopes_behind (n index anonymous taken : Nat) (fs : List (FunctionYield Gain)) :
    scopes n 0 (index + n) anonymous fs =
      List.zipWith (Scope.behind n) (namesFrom anonymous (fs.map name))
        (scopes 0 0 index taken fs) := by
  induction fs generalizing index anonymous taken with
  | nil => rfl
  | cons f rest ih =>
    have hindex : index + n + 1 = index + 1 + n := by omega
    have hhead : ∀ name, f.name.getD (.string (anonymousName (anonymous + 1))) = name →
        f.scope n 0 (index + n) anonymous = (f.scope 0 0 index taken).behind n name := by
      rintro _ rfl
      simp only [scope, Scope.behind, Scope.collect, renumber_elim n, hindex, Option.map_some]
    rw [scopes, scopes, hindex, List.map_cons]
    -- An unnamed function takes the next number, on both sides.
    cases hname : f.name with
    | none =>
      rw [namesFrom, List.zipWith_cons_cons, hhead _ (by rw [hname, Option.getD_none]),
        ih _ _ (taken + unnamed [f])]
      simp [unnamed, hname]
    | some name =>
      rw [namesFrom, List.zipWith_cons_cons, hhead _ (by rw [hname, Option.getD_some]),
        ih _ _ (taken + unnamed [f])]
      simp [unnamed, hname]

end FunctionYield

/-- The scopes of some classes, with functions and classes before them and from the start. -/
theorem ClassYield.scopes_behind (functions classes index : Nat) (cs : List (ClassYield Gain)) :
    scopes functions 0 0 (index + classes) cs =
      (scopes 0 0 0 index cs).map (ClassScope.behind functions classes) := by
  induction cs generalizing index with
  | nil => rfl
  | cons c rest ih =>
    have hindex : index + classes + 1 = index + 1 + classes := by omega
    have hmethods : c.methods.map (functions + · + 1) =
        (c.methods.map (0 + · + 1)).map (· + functions) := by
      rw [List.map_map]
      refine List.map_congr_left fun i _ => ?_
      show functions + i + 1 = 0 + i + 1 + functions
      omega
    have hhead : c.scope functions 0 0 (index + classes) =
        (c.scope 0 0 0 index).behind functions classes := by
      simp only [scope, ClassScope.behind, Scope.collect, ScopeTree.renumber_elim functions,
        hmethods, Option.map_some]
    rw [scopes, scopes, hindex, ih, List.map_cons, hhead]

/-- The module after a gain, and the module that has the gain from the start. -/
theorem Scope.collect_eq_joined {a : Scope Int String} {operators operands : List String}
    (hoperators : a.operators.Counts operators) (hoperands : a.operands.Counts operands)
    (g : Gain) (lines : Lines Int) :
    a.collect g = a.joined ((ScopeTree.start lines).module.collect g) := by
  have hpaths : a.cyclomatic + g.paths = a.cyclomatic + (1 + g.paths) - 1 := by omega
  simp only [collect, joined, ScopeTree.start, hoperators.addAll_eq_join,
    hoperands.addAll_eq_join, hpaths, Int.zero_add]

/-- The scopes that are extended by a yield, where nothing is open. -/
theorem ScopeTree.extend_eq_followedBy {t : ScopeTree Int String} {operators operands : List String}
    (hfunctions : t.openFunctions = []) (hclasses : t.openClasses = [])
    (hoperators : t.module.operators.Counts operators)
    (hoperands : t.module.operands.Counts operands) (lines : Lines Int) (y : Yield Gain) :
    t.extend y = t.followedBy y.names ((start lines).extend y) := by
  refine ScopeTree.ext ?_ ?_ rfl ?_ rfl ?_
  · exact Scope.collect_eq_joined hoperators hoperands y.total lines
  · have hbehind := FunctionYield.scopes_behind t.functions.length 0 t.anonymous 0 y.functions
    rw [Nat.zero_add] at hbehind
    rw [functions_extend, hfunctions, currentIndex, hfunctions]
    exact congrArg (t.functions ++ ·) hbehind
  · have hbehind := ClassYield.scopes_behind t.functions.length t.classes.length 0 y.classes
    rw [Nat.zero_add] at hbehind
    rw [classes_extend, hclasses, currentIndex, hfunctions, depth, hfunctions]
    exact congrArg (t.classes ++ ·) hbehind
  · -- The functions that have no name of their own are counted from zero in the second part.
    show _ = t.anonymous + (0 + FunctionYield.unnamed y.functions)
    rw [Nat.zero_add]
    rfl

/-- What two yields bring one after the other is what the second one brings from the start, behind
what the first one brings. -/
theorem Walk.extend_eq_followedBy (lines : Lines Int) (y z : Yield Gain) :
    { tree := ScopeTree.start lines : Walk }.extend (y ++ z) =
      ({ tree := ScopeTree.start lines : Walk }.extend y).followedBy z.names
        ({ tree := ScopeTree.start lines : Walk }.extend z) := by
  rw [extend_append (ScopeTree.sound_start lines)]
  -- The second yield extends a walk in which nothing is open any more.
  have htree := ScopeTree.extend_eq_followedBy (t := (ScopeTree.start lines).extend y) rfl rfl
    (Tally.counts_empty.addAll y.total.operators) (Tally.counts_empty.addAll y.total.operands)
    lines z
  have hnotes := noteAll_eq z.unknown (noteAll y.unknown ([], []))
  unfold followedBy
  rw [extend, tree_extend, htree]
  simp only [extend, List.nil_append, hnotes]

/-! ### Statements under another parent -/

namespace Dialect

variable {d : Dialect} {s : Settings} {lines : Lines Int} {a b : Document}

/-- A node yields the same at two places where its rule reads the same and where it has the same
name by a binding. Nothing else is asked of a place. -/
theorem harvest_congr {p q : Placed} (hnode : q.node = p.node)
    (hread : ∀ rule, d.ruleFor p.node = some rule → rule.read s q = rule.read s p)
    (hbinding : q.bindingName? = p.bindingName?) : d.harvest s lines q = d.harvest s lines p := by
  have hname : ∀ naming : Naming, naming.name? q = naming.name? p := by
    intro naming
    cases naming with
    | binding => exact hbinding
    | ownThenBinding => simp only [Naming.name?, Placed.functionName?, hnode, hbinding]
    | key => simp only [Naming.name?, Placed.methodName?, hnode]
  have hclose : ∀ (form : ScopeForm) (rule : Rule) (own : Lines Int) (y : Yield Gain),
      y.enclose Gain.ofFunction form rule q own = y.enclose Gain.ofFunction form rule p own := by
    intro form rule own y
    simp only [Yield.enclose, hname, hnode]
  rw [harvest, harvest, hnode]
  cases hrule : d.ruleFor p.node with
  | none => rfl
  | some rule => simp only [hread rule hrule, hclose]

/-- A node in a list yields the same under parents of the same kind. Its rules ask no more of the
parent, and no binding names a node in a list. -/
theorem harvest_item (hkind : b.kind? = a.kind?) {c : Child} (hlisted : c.direct = false)
    (hnode : c.node.isNode) : d.harvest s lines (c.placed b) = d.harvest s lines (c.placed a) := by
  have hobject : c.node.isObject := by
    cases hc : c.node with
    | object fields => rfl
    | _ =>
      rw [hc] at hnode
      cases hnode
  -- Bindings are looked up by the slot of a node, and a node in a list has none.
  have hbinding : ∀ parent, (c.placed parent).bindingName? = none := by
    intro parent
    have hslot : (c.placed parent).slot = none := by
      rw [Child.placed, hlisted]
      rfl
    refine Placed.bindingName?_of_slot hobject fun key _ hkey => ?_
    rw [hslot] at hkey
    cases hkey
  apply harvest_congr (p := c.placed a) (q := c.placed b) rfl
  · intro rule _
    exact Rule.read_eq ⟨fun _ _ => rfl, rfl, hkind⟩ rfl
  · rw [hbinding, hbinding]

/-- So do several of them. -/
theorem harvestAll_items (hkind : b.kind? = a.kind?) {cs : List Child}
    (hcs : ∀ c ∈ cs, c.direct = false ∧ c.node.isNode) :
    d.harvestAll s lines b cs = d.harvestAll s lines a cs := by
  induction cs with
  | nil => rw [harvestAll, harvestAll]
  | cons c cs ih =>
    obtain ⟨⟨hlisted, hnode⟩, hrest⟩ := List.forall_mem_cons.mp hcs
    rw [harvestAll, harvestAll, harvest_item hkind hlisted hnode, ih hrest]

/-! ### Names in a traversal -/

/-- The functions of a traversal have the names of the yield. -/
theorem ownNames_of_walk {root : Document} {w : Walk} (done : d.walk s root = .ok w)
    {lines : Lines Int} {y : Yield Gain}
    (hy : d.harvest s lines { node := d.typedRoot root } = .ok y) :
    ((d.journal s root).opened .function).map (·.staticName d) = y.names := by
  rw [Journal.opened, (performAll_of_walk done).1]
  exact functionNames_of_harvest (o := d.top root) hy

/-- In a traversal, functions without a name of their own take the numbers from one on. -/
theorem names_of_walk {root : Document} {w : Walk} (done : d.walk s root = .ok w) :
    w.tree.functions.map Scope.name = (ScopeTree.namesFrom 0
        (((d.journal s root).opened .function).map (·.staticName d))).map some ∧
      w.tree.anonymous =
        (((d.journal s root).opened .function).map (·.staticName d)).countP Option.isNone := by
  obtain ⟨lines, y, -, hy, rfl⟩ := exists_yield done
  rw [ownNames_of_walk done hy]
  constructor
  · exact FunctionYield.names_scopes 0 0 0 0 y.functions
  · show 0 + FunctionYield.unnamed y.functions = _
    rw [Nat.zero_add, FunctionYield.unnamed, Yield.names, List.countP_map]
    rfl

end Dialect

/-! ### The statements of a module -/

namespace Estree

open Document

/-- A module with the given statements. The other fields of its root stand before and after. -/
def program (before after : List (String × Document)) (body : List Document) : Document :=
  .object (before ++ ("body", .list body) :: after)

/-- The statements of a module as children. -/
def statements (body : List Document) : List Child :=
  (body.filter isNode).map fun statement => ⟨"body", false, statement⟩

theorem statements_append (first second : List Document) :
    statements (first ++ second) = statements first ++ statements second := by
  rw [statements, List.filter_append, List.map_append]
  rfl

theorem mem_statements {body : List Document} {c : Child} (h : c ∈ statements body) :
    c.direct = false ∧ c.node.isNode := by
  obtain ⟨statement, hstatement, rfl⟩ := List.mem_map.mp h
  exact ⟨rfl, (List.mem_filter.mp hstatement).2⟩

section

variable {before after : List (String × Document)}

/-- The other fields of a module do not depend on the statements. -/
theorem field?_program {key : String} (hkey : key ≠ "body") (body : List Document) :
    (program before after body).field? key = (program before after []).field? key :=
  field?_of_ne hkey (.list body) (.list [])

theorem kind?_program (body : List Document) :
    (program before after body).kind? = (program before after []).kind? := by
  rw [kind?, field?_program (by decide) body, kind?]

theorem lines?_program (body : List Document) :
    (program before after body).lines? = (program before after []).lines? := by
  have hloc : (program before after body).get "loc" = (program before after []).get "loc" := by
    rw [Document.get, field?_program (by decide) body, Document.get]
  rw [lines?, hloc, lines?]

/-- Fields that are never followed have no children. -/
theorem childrenIn_eq_nil {fields : List (String × Document)}
    (h : ∀ field ∈ fields, field.1 ∈ nonChildKeys) :
    childrenIn (fun key => !nonChildKeys.contains key && !([] : List String).contains key) fields =
      [] := by
  rw [childrenIn_eq_flatMap, List.flatMap_eq_nil_iff]
  intro field hfield
  simp [h field hfield]

/-- The children of a module are its statements, if no other field can have children. -/
theorem children_program (hplain : ∀ field ∈ before ++ after, field.1 ∈ nonChildKeys)
    (body : List Document) : (program before after body).children [] = statements body := by
  obtain ⟨hbefore, hafter⟩ := List.forall_mem_append.mp hplain
  rw [program, children, childrenIn_append, childrenIn, childrenIn_eq_nil hbefore,
    childrenIn_eq_nil hafter, List.nil_append, List.append_nil]
  rfl

variable {s : Settings}

/-- A module yields what its statements yield, whatever else there is in the module. -/
theorem harvest_program (hkind : (program before after []).kind? = some "Program")
    (hplain : ∀ field ∈ before ++ after, field.1 ∈ nonChildKeys) (lines : Lines Int)
    (body : List Document) :
    dialect.harvest s lines { node := dialect.typedRoot (program before after body) } =
      dialect.harvestAll s lines (program before after []) (statements body) := by
  have hbody := (kind?_program body).trans hkind
  have hroot : dialect.typedRoot (program before after body) = program before after body := by
    rw [Dialect.typedRoot, isNode, hbody]
    rfl
  have hrule : dialect.ruleFor (program before after body) = some {} := by
    rw [Dialect.ruleFor, hbody]
    rfl
  rw [hroot, Dialect.harvest]
  simp only [hrule]
  -- The root adds nothing of its own and passes over nothing.
  show (do
    let below ← dialect.harvestAll s lines (program before after body)
      ((program before after body).children [])
    return Yield.only 0 ++ below) = _
  rw [children_program hplain,
    Dialect.harvestAll_items (kind?_program body) fun c hc => mem_statements hc]
  simp

/-- The traversal of a module from usable lines. -/
theorem walk_program (hkind : (program before after []).kind? = some "Program")
    (hplain : ∀ field ∈ before ++ after, field.1 ∈ nonChildKeys) {lines : Lines Int}
    (usable : (program before after []).lines? = .ok (some lines)) (body : List Document) :
    dialect.walk s (program before after body) = (do
      let y ← dialect.harvestAll s lines (program before after []) (statements body)
      return { tree := ScopeTree.start lines : Walk }.extend y) := by
  rw [Dialect.walk_eq_extend, lines?_program, usable, ← harvest_program hkind hplain]
  rfl

/-- The names that the functions of a module have of their own, in the order they are opened. -/
def ownNames (s : Settings) (root : Document) : List (Option Document) :=
  ((dialect.journal s root).opened .function).map (·.staticName dialect)

/-- A module of two parts is traversed like its parts, and fails where one of these fails. -/
theorem walk_append (hkind : (program before after []).kind? = some "Program")
    (hplain : ∀ field ∈ before ++ after, field.1 ∈ nonChildKeys) (s : Settings)
    (first second : List Document) :
    dialect.walk s (program before after (first ++ second)) = (do
      let v ← dialect.walk s (program before after first)
      let w ← dialect.walk s (program before after second)
      return v.followedBy (ownNames s (program before after second)) w) := by
  cases hlines : (program before after []).lines? with
  | error fault =>
    simp only [Dialect.walk_eq_extend, lines?_program, hlines]
    rfl
  | ok found =>
    cases found with
    | none =>
      simp only [Dialect.walk_eq_extend, lines?_program, hlines]
      rfl
    | some lines =>
      -- All three modules have the same lines, so that they differ in their statements only.
      have hwalk := fun body => walk_program (s := s) hkind hplain hlines body
      rw [hwalk, hwalk, hwalk, statements_append, Dialect.harvestAll_append]
      cases dialect.harvestAll s lines (program before after []) (statements first) with
      | error fault => rfl
      | ok y =>
        cases hz : dialect.harvestAll s lines (program before after []) (statements second) with
        | error fault => rfl
        | ok z =>
          have hdone : dialect.walk s (program before after second) =
              .ok ({ tree := ScopeTree.start lines : Walk }.extend z) := by
            rw [hwalk, hz]
            rfl
          have hyield := (harvest_program hkind hplain lines second).trans hz
          have hnames : ownNames s (program before after second) = z.names :=
            Dialect.ownNames_of_walk hdone hyield
          rw [hnames]
          exact congrArg Except.ok (Walk.extend_eq_followedBy lines y z)

/-- The traversal of a module of two parts is the traversal of the first part, followed by that of
the second, and fails where one of these fails. What follows has its functions, classes and methods
numbered behind those of the first part. What is loaded is put in the order of the lines after both
parts. Functions without a name of their own are named by their number among such functions, in
both parts and in the whole. -/
theorem walk_concatenation (hkind : (program before after []).kind? = some "Program")
    (hplain : ∀ field ∈ before ++ after, field.1 ∈ nonChildKeys) (s : Settings)
    (first second : List Document) :
    (dialect.walk s (program before after (first ++ second)) = do
      let v ← dialect.walk s (program before after first)
      let w ← dialect.walk s (program before after second)
      return v.followedBy (ownNames s (program before after second)) w) ∧
    (∀ u v w, dialect.walk s (program before after (first ++ second)) = .ok u →
      dialect.walk s (program before after first) = .ok v →
      dialect.walk s (program before after second) = .ok w →
      u.dependencies = Dependency.inLineOrder (v.found ++ w.found)) ∧
    ∀ body w, dialect.walk s (program before after body) = .ok w →
      w.tree.functions.map Scope.name =
        (ScopeTree.namesFrom 0 (ownNames s (program before after body))).map some ∧
      w.tree.anonymous = (ownNames s (program before after body)).countP Option.isNone := by
  refine ⟨walk_append hkind hplain s first second, ?_,
    fun body w done => Dialect.names_of_walk done⟩
  intro u v w hu hv hw
  rw [walk_append hkind hplain, hv, hw] at hu
  cases hu
  rfl

end

end Estree

namespace Sample

/-- A function without a name, and a node of an unknown kind. -/
def firstPart : List Document :=
  [function [name "x"] [name "y"], node "Decorated" []]

/-- A class with a method, and nodes of two unknown kinds. -/
def secondPart : List Document :=
  [classWith "Outer" "run" (function [] [function [name "z"] []]), node "Decorated" [],
   node "Mark" []]

/-- A module with some statements, and with the lines from 1 to 9. -/
def moduleOf (body : List Document) : Document :=
  Estree.program [("type", .string "Program")] [("loc", location)] body

end Sample

/-- In the module of two parts the functions of the class come behind the function of the first
part, and the kind that both parts have is recorded once. -/
theorem Estree.walk_concatenation_parts :
    (Sample.moduleOf []).kind? = some "Program" ∧
    (∀ field ∈ [("type", Document.string "Program")] ++ [("loc", Sample.location)],
      field.1 ∈ nonChildKeys) ∧
    ∃ v w, dialect.walk {} (Sample.moduleOf Sample.firstPart) = .ok v ∧
      dialect.walk {} (Sample.moduleOf Sample.secondPart) = .ok w ∧
      (v.tree.functions.map Scope.parent, v.unsupported) = ([some 0], ["Decorated"]) ∧
      (w.tree.functions.map Scope.parent, w.unsupported) =
        ([some 0, some 1], ["Decorated", "Mark"]) ∧
      ∃ u, dialect.walk {} (Sample.moduleOf (Sample.firstPart ++ Sample.secondPart)) = .ok u ∧
        u = v.followedBy (ownNames {} (Sample.moduleOf Sample.secondPart)) w ∧
        (u.tree.functions.map Scope.parent, u.unsupported) =
          ([some 0, some 0, some 2], ["Decorated", "Mark"]) := by
  have hkind : (Sample.moduleOf []).kind? = some "Program" := rfl
  have hplain : ∀ field ∈ [("type", Document.string "Program")] ++ [("loc", Sample.location)],
      field.1 ∈ nonChildKeys := by
    simp [nonChildKeys]
  have hfirst : (dialect.walk {} (Sample.moduleOf Sample.firstPart)).toOption.map
      (fun w => (w.tree.functions.map Scope.parent, w.unsupported)) =
        some ([some 0], ["Decorated"]) := by
    decide +kernel
  have hsecond : (dialect.walk {} (Sample.moduleOf Sample.secondPart)).toOption.map
      (fun w => (w.tree.functions.map Scope.parent, w.unsupported)) =
        some ([some 0, some 1], ["Decorated", "Mark"]) := by
    decide +kernel
  have hwhole : (dialect.walk {}
      (Sample.moduleOf (Sample.firstPart ++ Sample.secondPart))).toOption.map
        (fun w => (w.tree.functions.map Scope.parent, w.unsupported)) =
          some ([some 0, some 0, some 2], ["Decorated", "Mark"]) := by
    decide +kernel
  obtain ⟨v, hv, hvpair⟩ := exists_ok_of_map_toOption hfirst
  obtain ⟨w, hw, hwpair⟩ := exists_ok_of_map_toOption hsecond
  obtain ⟨u, hu, hupair⟩ := exists_ok_of_map_toOption hwhole
  have hlaw := (walk_concatenation hkind hplain {} Sample.firstPart Sample.secondPart).1
  have hsame : dialect.walk {} (Sample.moduleOf (Sample.firstPart ++ Sample.secondPart)) =
      .ok (v.followedBy (ownNames {} (Sample.moduleOf Sample.secondPart)) w) := by
    refine hlaw.trans ?_
    -- The law gives the modules by their fields, so they are named again here.
    show (dialect.walk {} (Sample.moduleOf Sample.firstPart) >>= _) = _
    rw [hv]
    show (dialect.walk {} (Sample.moduleOf Sample.secondPart) >>= _) = _
    rw [hw]
    rfl
  exact ⟨hkind, hplain, v, w, hv, hw, hvpair, hwpair, u, hu, Except.ok.inj (hu.symm.trans hsame),
    hupair⟩

end CodeMetrics
