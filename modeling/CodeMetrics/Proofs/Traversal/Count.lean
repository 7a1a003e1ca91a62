import CodeMetrics.Proofs.Result
import CodeMetrics.Proofs.Traversal.View

/-!
# `CodeMetrics.Proofs.Traversal.Count`: yields without the order of tokens

The gains of a yield hold tokens in the order they are met. Counting them forgets that order and
keeps everything else (`counted`), so that two harvests can be compared that tally the same
tokens in another order.

Harvests that count the same lead to walks with the same scopes, whose tallies hold each token
equally often (`Walk.Matches`).
-/

set_option autoImplicit false

namespace CodeMetrics

/-! ### Counting yields -/

/-- The numbers that a gain brings, as a map that keeps sums. -/
def Gain.countsHom : Gain →+ ScopeCounts where
  toFun := Gain.counts
  map_zero' := Gain.counts_zero
  map_add' := Gain.counts_add

/-- A result with the gains counted. -/
def counted (x : Except Error (Yield Gain)) : Except Error (Yield ScopeCounts) :=
  x.map (.map Gain.countsHom)

@[simp] theorem counted_ok (y : Yield Gain) : counted (.ok y) = .ok (y.map Gain.countsHom) := rfl

@[simp] theorem counted_error (e : Error) : counted (.error e) = .error e := rfl

/-- The function that opens brings the same whether it is counted before or after. -/
abbrev openingCounts : Nat → ScopeCounts := Gain.countsHom ∘ Gain.ofFunction

/-- Results one after the other can be counted one by one. -/
theorem counted_append (x z : Except Error (Yield Gain)) :
    counted (do let a ← x; let b ← z; return a ++ b) =
      (do let a ← counted x; let b ← counted z; return a ++ b) := by
  cases x with
  | error e => rfl
  | ok a =>
    cases z with
    | error e => rfl
    | ok b => exact congrArg Except.ok (Yield.map_append _ a b)

/-- What a node adds can be counted first. -/
theorem counted_prepend (y : Yield Gain) (x : Except Error (Yield Gain)) :
    counted (do let a ← x; return y ++ a) =
      (do let a ← counted x; return y.map Gain.countsHom ++ a) :=
  counted_append (.ok y) x

/-- A scope that is opened can be counted part by part. -/
theorem counted_scope {α : Type} (y : Yield Gain) (outside : Except Error (Yield Gain))
    (lines : Except Error α) (inside : α → Except Error (Yield Gain)) (form : ScopeForm)
    (rule : Rule) (p : Placed) (own : α → Lines Int) :
    counted (do
      let o ← outside
      let l ← lines
      let i ← inside l
      return y ++ (o ++ i.enclose Gain.ofFunction form rule p (own l))) =
    (do
      let o ← counted outside
      let l ← lines
      let i ← counted (inside l)
      return y.map Gain.countsHom ++ (o ++ i.enclose openingCounts form rule p (own l))) := by
  cases outside with
  | error e => rfl
  | ok o =>
    cases lines with
    | error e => rfl
    | ok l =>
      show counted (inside l >>= _) = counted (inside l) >>= _
      cases inside l with
      | error e => rfl
      | ok i =>
        show Except.ok _ = Except.ok _
        rw [Yield.map_append, Yield.map_append, Yield.map_enclose]

namespace Dialect

/-- The yields of two groups of children come one after the other. -/
theorem harvestAll_append (d : Dialect) (s : Settings) (lines : Lines Int) (parent : Document)
    (cs ds : List Child) :
    d.harvestAll s lines parent (cs ++ ds) = (do
      let y ← d.harvestAll s lines parent cs
      let z ← d.harvestAll s lines parent ds
      return y ++ z) := by
  induction cs with
  | nil =>
    rw [List.nil_append, harvestAll]
    show _ = (do let z ← d.harvestAll s lines parent ds; return Yield.only 0 ++ z)
    simp
  | cons c rest ih =>
    rw [List.cons_append, harvestAll, harvestAll, ih]
    simp only [bind_assoc, pure_bind, Yield.append_assoc]

/-- An only child yields what the children yield. -/
theorem harvestAll_singleton (d : Dialect) (s : Settings) (lines : Lines Int) (parent : Document)
    (c : Child) : d.harvestAll s lines parent [c] = d.harvest s lines (c.placed parent) := by
  rw [harvestAll, harvestAll]
  cases d.harvest s lines (c.placed parent) with
  | error e => rfl
  | ok y => exact congrArg Except.ok (Yield.append_empty y)

/-- Children whose yields count the same one by one count the same together. -/
theorem counted_harvestAll {d d' : Dialect} {s : Settings} {lines : Lines Int} {a b : Document}
    (move : Child → Child) {cs : List Child}
    (h : ∀ c ∈ cs, counted (d'.harvest s lines ((move c).placed b)) =
      counted (d.harvest s lines (c.placed a))) :
    counted (d'.harvestAll s lines b (cs.map move)) = counted (d.harvestAll s lines a cs) := by
  induction cs with
  | nil =>
    rw [List.map_nil, harvestAll, harvestAll]
  | cons c rest ih =>
    rw [List.forall_mem_cons] at h
    rw [List.map_cons, harvestAll, harvestAll, counted_append, counted_append, h.1, ih h.2]

/-- A node without children yields what it adds itself. -/
theorem harvest_leaf {d : Dialect} {s : Settings} {lines : Lines Int} {p : Placed} {rule : Rule}
    {c : Contribution} (hrule : d.ruleFor p.node = some rule) (hopens : rule.opens = none)
    (hread : rule.read s p = .ok c) (hchildren : p.node.children c.ignored = []) :
    d.harvest s lines p = .ok (.ofContribution s c) := by
  rw [harvest]
  simp only [hrule, hread, hopens]
  show (do let below ← d.harvestAll s lines p.node (p.node.children c.ignored)
           return Yield.ofContribution s c ++ below) = _
  rw [hchildren, harvestAll]
  exact congrArg Except.ok (Yield.append_empty _)

/-- A node with one child yields what it adds itself, and then what the child yields. -/
theorem harvest_single {d : Dialect} {s : Settings} {lines : Lines Int} {p : Placed} {rule : Rule}
    {c : Contribution} {child : Child} (hrule : d.ruleFor p.node = some rule)
    (hopens : rule.opens = none) (hread : rule.read s p = .ok c)
    (hchildren : p.node.children c.ignored = [child]) :
    d.harvest s lines p =
      (do let y ← d.harvest s lines (child.placed p.node)
          return .ofContribution s c ++ y) := by
  rw [harvest]
  simp only [hrule, hread, hopens]
  show (do let below ← d.harvestAll s lines p.node (p.node.children c.ignored)
           return Yield.ofContribution s c ++ below) = _
  rw [hchildren, harvestAll_singleton]

end Dialect

/-! ### Results that count the same -/

/-- Two yields count the same. -/
def SameCount (y z : Yield Gain) : Prop :=
  y.map Gain.countsHom = z.map Gain.countsHom

theorem counted_eq_iff {x z : Except Error (Yield Gain)} :
    counted x = counted z ↔ Agree SameCount x z := by
  constructor
  · intro h
    cases x with
    | error e =>
      cases z with
      | error e' =>
        cases h
        exact .error e
      | ok b => cases h
    | ok a =>
      cases z with
      | error e => cases h
      | ok b => exact .ok (Except.ok.inj h)
  · intro h
    cases h with
    | ok h => exact congrArg Except.ok h
    | error e => rfl

/-! ### Scopes that count the same -/

/-- Two scopes are the same, up to the order in which their tokens were first met. -/
structure Scope.Matches (a b : Scope Int String) : Prop where
  index : a.index = b.index
  name : a.name = b.name
  lines : a.lines = b.lines
  parent : a.parent = b.parent
  paramNames : a.paramNames = b.paramNames
  counts : a.counts = b.counts

/-- Two classes are the same, up to the order in which their tokens were first met. -/
structure ClassScope.Matches (a b : ClassScope Int String) : Prop
    extends Scope.Matches a.toScope b.toScope where
  superName : a.superName = b.superName
  depth : a.depth = b.depth
  methods : a.methods = b.methods

/-- Two walks are the same, up to the order in which the tokens of each scope were first met. -/
structure Walk.Matches (v w : Walk) : Prop where
  module : Scope.Matches v.tree.module w.tree.module
  functions : List.Forall₂ Scope.Matches v.tree.functions w.tree.functions
  classes : List.Forall₂ ClassScope.Matches v.tree.classes w.tree.classes
  found : v.found = w.found
  errors : v.errors = w.errors
  unsupported : v.unsupported = w.unsupported

/-- Gains that count the same keep a scope the same. -/
theorem Scope.matches_collect {g h : Gain} (hcounts : Gain.countsHom g = Gain.countsHom h)
    (scope : Scope Int String) : Scope.Matches (scope.collect g) (scope.collect h) where
  index := rfl
  name := rfl
  lines := rfl
  parent := rfl
  paramNames := rfl
  counts := by
    rw [counts_collect, counts_collect]
    exact congrArg (scope.counts + ·) hcounts

/-- Functions that count the same have the same scopes. -/
theorem FunctionYield.matches_scopes (base current : Nat) {fs gs : List (FunctionYield Gain)}
    (h : fs.map (map Gain.countsHom) = gs.map (map Gain.countsHom)) (index anonymous : Nat) :
    List.Forall₂ Scope.Matches (scopes base current index anonymous fs)
      (scopes base current index anonymous gs) := by
  induction fs generalizing gs index anonymous with
  | nil =>
    cases gs with
    | nil => exact .nil
    | cons g gs => cases h
  | cons f fs ih =>
    cases gs with
    | nil => cases h
    | cons g gs =>
      obtain ⟨hhead, htail⟩ := List.cons.inj h
      obtain ⟨name, lines, params, parent, gain⟩ := f
      obtain ⟨name', lines', params', parent', gain'⟩ := g
      obtain ⟨rfl, rfl, rfl, rfl, hgain⟩ := FunctionYield.mk.inj hhead
      exact .cons (Scope.matches_collect hgain _) (ih htail _ _)

/-- Classes that count the same have the same scopes. -/
theorem ClassYield.matches_scopes (base current depth : Nat) {cs ds : List (ClassYield Gain)}
    (h : cs.map (map Gain.countsHom) = ds.map (map Gain.countsHom)) (index : Nat) :
    List.Forall₂ ClassScope.Matches (scopes base current depth index cs)
      (scopes base current depth index ds) := by
  induction cs generalizing ds index with
  | nil =>
    cases ds with
    | nil => exact .nil
    | cons d ds => cases h
  | cons c cs ih =>
    cases ds with
    | nil => cases h
    | cons d ds =>
      obtain ⟨hhead, htail⟩ := List.cons.inj h
      obtain ⟨name, superName, lines, parent, inner, methods, gain⟩ := c
      obtain ⟨name', superName', lines', parent', inner', methods', gain'⟩ := d
      obtain ⟨rfl, rfl, rfl, rfl, rfl, rfl, hgain⟩ := ClassYield.mk.inj hhead
      exact .cons ⟨Scope.matches_collect hgain _, rfl, rfl, rfl⟩ (ih htail _)

/-- Yields that count the same lead to the same walk. -/
theorem SameCount.matches_extend {y z : Yield Gain} (h : SameCount y z) (lines : Lines Int) :
    Walk.Matches ({ tree := ScopeTree.start lines : Walk }.extend y)
      ({ tree := ScopeTree.start lines : Walk }.extend z) := by
  obtain ⟨htotal, -, -, hfunctions, hclasses, -, hfound, hunknown⟩ := Yield.ext_iff.mp h
  have hnotes := congrArg (Walk.noteAll · ([], [])) hunknown
  exact
    { module := Scope.matches_collect htotal _
      functions := FunctionYield.matches_scopes _ _ hfunctions _ _
      classes := ClassYield.matches_scopes _ _ _ hclasses _
      found := hfound
      errors := congrArg Prod.fst hnotes
      unsupported := congrArg Prod.snd hnotes }

/-- Roots with the same lines whose harvests count the same have the same walk. -/
theorem Dialect.walks_match {d d' : Dialect} {s : Settings} {root root' : Document}
    (hlines : root.lines? = root'.lines?)
    (h : ∀ lines, counted (d.harvest s lines { node := d.typedRoot root }) =
      counted (d'.harvest s lines { node := d'.typedRoot root' })) :
    Agree Walk.Matches (d.walk s root) (d'.walk s root') := by
  rw [walk_eq_extend, walk_eq_extend, hlines]
  refine Agree.bind_same _ fun found => ?_
  cases found with
  | none => exact .error _
  | some lines =>
    refine (counted_eq_iff.mp (h lines)).bind fun y z hyz => ?_
    exact .ok (hyz.matches_extend lines)

end CodeMetrics
