import CodeMetrics.Proofs.Traversal.Count

/-!
# `CodeMetrics.Proofs.Traversal.Likeness`: trees that count alike under other names

Two trees can stand for the same program and still name its functions and classes differently.
`Yield.Like R` compares two yields without the names: they open the same scopes at the same
places, and what a scope gains in one yield is related by `R` to what it gains in the other one.
With equality for `R` the numbers are the same. A weaker relation allows for a difference, which
adds up over the nodes of a scope.

One node after the other, harvests stay alike (`Dialect.like_harvest`), and from the root they
lead to walks with the same scopes and related numbers (`Dialect.walks_count_as`).
-/

set_option autoImplicit false

namespace CodeMetrics

/-- A relation between numbers that goes over to sums. -/
structure ScopeCounts.Compatible (R : ScopeCounts → ScopeCounts → Prop) : Prop where
  refl : ∀ a, R a a
  add : ∀ {a b c d}, R a b → R c d → R (a + c) (b + d)

/-- Equality does. -/
theorem ScopeCounts.compatible_eq : Compatible Eq where
  refl _ := rfl
  add h h' := by rw [h, h']

/-! ### Yields -/

section

variable (R : ScopeCounts → ScopeCounts → Prop)

/-- Two functions stand at the same place, have as many parameters and gain related numbers. -/
structure FunctionYield.Like (f g : FunctionYield Gain) : Prop where
  lines : f.lines = g.lines
  params : f.params.length = g.params.length
  parent : f.parent = g.parent
  gain : R f.gain.counts g.gain.counts

/-- Two classes stand at the same place, have the same methods and gain related numbers. -/
structure ClassYield.Like (c d : ClassYield Gain) : Prop where
  lines : c.lines = d.lines
  parent : c.parent = d.parent
  depth : c.depth = d.depth
  methods : c.methods = d.methods
  gain : R c.gain.counts d.gain.counts

/-- Two yields open the same scopes and bring related numbers to them and to those around. -/
structure Yield.Like (y z : Yield Gain) : Prop where
  total : R y.total.counts z.total.counts
  own : R y.own.counts z.own.counts
  member : R y.member.counts z.member.counts
  functions : List.Forall₂ (FunctionYield.Like R) y.functions z.functions
  classes : List.Forall₂ (ClassYield.Like R) y.classes z.classes
  methods : y.methods = z.methods
  found : y.found = z.found
  unknown : y.unknown = z.unknown

/-- Two nodes contribute related numbers, refer to the same module and pass over the same
keys. -/
structure Contribution.Like (c c' : Contribution) : Prop where
  counts : R (Gain.ofContribution c).counts (Gain.ofContribution c').counts
  dependency : c'.dependency = c.dependency
  ignored : c'.ignored = c.ignored

end

variable {R : ScopeCounts → ScopeCounts → Prop}

/-- What stands alike at one place stands alike at another one. -/
theorem forall₂_map {α : Type} {S : α → α → Prop} {f : α → α} {xs ys : List α}
    (hf : ∀ a b, S a b → S (f a) (f b)) (h : List.Forall₂ S xs ys) :
    List.Forall₂ S (xs.map f) (ys.map f) := by
  rw [List.forall₂_map_left_iff, List.forall₂_map_right_iff]
  exact h.imp hf

namespace FunctionYield.Like

variable {f g : FunctionYield Gain}

theorem shift (n : Nat) (h : FunctionYield.Like R f g) :
    FunctionYield.Like R (f.shift n) (g.shift n) :=
  { h with parent := congrArg (Option.map (· + n)) h.parent }

theorem nested (h : FunctionYield.Like R f g) : FunctionYield.Like R f.nested g.nested :=
  { h with parent := by simp only [FunctionYield.nested, h.parent] }

end FunctionYield.Like

namespace ClassYield.Like

variable {c d : ClassYield Gain}

theorem shift (n : Nat) (h : ClassYield.Like R c d) : ClassYield.Like R (c.shift n) (d.shift n) :=
  { h with
    parent := congrArg (Option.map (· + n)) h.parent
    methods := congrArg (List.map (· + n)) h.methods }

theorem nested (h : ClassYield.Like R c d) : ClassYield.Like R c.nested d.nested :=
  { h with
    parent := by simp only [ClassYield.nested, h.parent]
    depth := congrArg (· + 1) h.depth
    methods := congrArg (List.map (· + 1)) h.methods }

end ClassYield.Like

namespace Yield.Like

variable {y z y' z' : Yield Gain}

/-- Yields that open nothing are alike if they gain related numbers. -/
theorem only {g h : Gain} (hcounts : R g.counts h.counts) (found : List (Dependency Int)) :
    Yield.Like R (.only g found) (.only h found) :=
  ⟨hcounts, hcounts, hcounts, .nil, .nil, rfl, rfl, rfl⟩

/-- A yield is like itself. -/
theorem refl (hR : ScopeCounts.Compatible R) (y : Yield Gain) : Yield.Like R y y where
  total := hR.refl _
  own := hR.refl _
  member := hR.refl _
  functions := List.forall₂_same.mpr fun _ _ => ⟨rfl, rfl, rfl, hR.refl _⟩
  classes := List.forall₂_same.mpr fun _ _ => ⟨rfl, rfl, rfl, rfl, hR.refl _⟩
  methods := rfl
  found := rfl
  unknown := rfl

/-- What nodes contribute is alike if the contributions are. -/
theorem ofContribution {c c' : Contribution} (h : Contribution.Like R c c') (s : Settings) :
    Yield.Like R (.ofContribution s c) (.ofContribution s c') := by
  rw [Yield.ofContribution, Yield.ofContribution, h.dependency]
  exact only h.counts _

/-- Yields one after the other are alike if they are one by one. -/
theorem append (hR : ScopeCounts.Compatible R) (h : Yield.Like R y z) (h' : Yield.Like R y' z') :
    Yield.Like R (y ++ y') (z ++ z') := by
  -- The second yields move up by the same number, since the first ones open as many functions.
  have hlength : y.functions.length = z.functions.length := h.functions.length_eq
  have hcounts : ∀ {a b c d : Gain}, R a.counts c.counts → R b.counts d.counts →
      R (a + b).counts (c + d).counts := by
    intro a b c d hac hbd
    rw [Gain.counts_add, Gain.counts_add]
    exact hR.add hac hbd
  refine ⟨hcounts h.total h'.total, hcounts h.own h'.own, hcounts h.member h'.member, ?_, ?_, ?_,
    ?_, ?_⟩
  · rw [functions_append, functions_append, hlength]
    exact List.rel_append h.functions (forall₂_map (fun _ _ hfg => hfg.shift _) h'.functions)
  · rw [classes_append, classes_append, hlength]
    exact List.rel_append h.classes (forall₂_map (fun _ _ hcd => hcd.shift _) h'.classes)
  · rw [methods_append, methods_append, hlength, h.methods, h'.methods]
  · rw [found_append, found_append, h.found, h'.found]
  · rw [unknown_append, unknown_append, h.unknown, h'.unknown]

/-- Scopes around yields that are alike are alike, whatever their names are. -/
theorem enclose (hR : ScopeCounts.Compatible R) (h : Yield.Like R y z) {p q : Placed}
    (hparams : q.node.parameters.length = p.node.parameters.length) (form : ScopeForm)
    (rule rule' : Rule) (own : Lines Int) :
    Yield.Like R (y.enclose Gain.ofFunction form rule p own)
      (z.enclose Gain.ofFunction form rule' q own) := by
  unfold Yield.enclose
  cases form with
  | classBody =>
    exact ⟨h.total, h.own, hR.refl _, h.functions,
      .cons ⟨rfl, rfl, rfl, h.methods, h.member⟩ h.classes, rfl, h.found, h.unknown⟩
  | function =>
    simp only [List.length_map, hparams]
    -- Opening the function brings the same to the module and to the class around it.
    have hopening : ∀ {a b : Gain}, R a.counts b.counts →
        R (Gain.ofFunction p.node.parameters.length + a).counts
          (Gain.ofFunction p.node.parameters.length + b).counts := by
      intro a b hab
      rw [Gain.counts_add, Gain.counts_add]
      exact hR.add (hR.refl _) hab
    refine ⟨hopening h.total, hR.refl _, hopening h.member, ?_, ?_, rfl, h.found, h.unknown⟩
    · refine .cons ⟨rfl, ?_, rfl, h.own⟩ (forall₂_map (fun _ _ hfg => hfg.nested) h.functions)
      rw [List.length_map, List.length_map, hparams]
    · exact forall₂_map (fun _ _ hcd => hcd.nested) h.classes

end Yield.Like

/-! ### Harvests -/

namespace Dialect

variable {d d' : Dialect} {s : Settings} {lines : Lines Int} {p q : Placed}

/-- Children whose yields are alike one by one yield alike together. -/
theorem like_harvestAll (hR : ScopeCounts.Compatible R) {a b : Document} (move : Child → Child)
    {cs : List Child}
    (h : ∀ c ∈ cs, Agree (Yield.Like R) (d.harvest s lines (c.placed a))
      (d'.harvest s lines ((move c).placed b))) :
    Agree (Yield.Like R) (d.harvestAll s lines a cs) (d'.harvestAll s lines b (cs.map move)) := by
  induction cs with
  | nil =>
    rw [List.map_nil, harvestAll, harvestAll]
    exact .ok (.only (hR.refl _) [])
  | cons c rest ih =>
    rw [List.forall_mem_cons] at h
    rw [List.map_cons, harvestAll, harvestAll]
    refine h.1.bind fun y z hyz => (ih h.2).bind fun y' z' hyz' => ?_
    exact .ok (hyz.append hR hyz')

/-- Two nodes yield alike if their rules read alike and open the same scopes, and their children
yield alike. -/
theorem like_harvest (hR : ScopeCounts.Compatible R) {rule rule' : Rule}
    (hrule : d.ruleFor p.node = some rule) (hrule' : d'.ruleFor q.node = some rule')
    (hopens : rule'.opens = rule.opens) (hkeys : rule'.scopeKeys = rule.scopeKeys)
    (hread : Agree (Contribution.Like R) (rule.read s p) (rule'.read s q))
    (hlines : q.node.lines? = p.node.lines?)
    (hparams : q.node.parameters.length = p.node.parameters.length) (move : Child → Child)
    (hmove : ∀ c, (move c).key = c.key)
    (hchildren : ∀ ignored, q.node.children ignored = (p.node.children ignored).map move)
    (hbelow : ∀ lines ignored, ∀ c ∈ p.node.children ignored,
      Agree (Yield.Like R) (d.harvest s lines (c.placed p.node))
        (d'.harvest s lines ((move c).placed q.node))) :
    Agree (Yield.Like R) (d.harvest s lines p) (d'.harvest s lines q) := by
  -- Whichever children are chosen by their keys, the same are chosen below both nodes.
  have hall : ∀ lines ignored (keep : String → Bool), Agree (Yield.Like R)
      (d.harvestAll s lines p.node ((p.node.children ignored).filter fun c => keep c.key))
      (d'.harvestAll s lines q.node ((q.node.children ignored).filter fun c => keep c.key)) := by
    intro lines ignored keep
    have hsame : ((fun c : Child => keep c.key) ∘ move) = fun c => keep c.key :=
      funext fun c => congrArg keep (hmove c)
    rw [hchildren, List.filter_map, hsame]
    exact like_harvestAll hR move fun c hc => hbelow lines ignored c (List.mem_of_mem_filter hc)
  rw [harvest, harvest]
  simp only [hrule, hrule', hopens, hkeys]
  refine (hread.mapError Error.fault).bind fun c c' hc => ?_
  rw [hc.ignored]
  have hown := Yield.Like.ofContribution hc s
  cases rule.opens with
  | none =>
    have heverything := hall lines c.ignored fun _ => true
    simp only [List.filter_true] at heverything
    exact heverything.bind fun y z hyz => .ok (hown.append hR hyz)
  | some form =>
    rw [hlines]
    refine (hall lines c.ignored fun key => rule.scopeKeys.contains key).bind fun o o' ho => ?_
    refine Agree.bind_same _ fun l => ?_
    refine (hall _ c.ignored fun key => !rule.scopeKeys.contains key).bind fun y z hyz => ?_
    exact .ok (hown.append hR (ho.append hR (hyz.enclose hR hparams form rule rule' _)))

/-- A node of an unknown kind yields alike if its children do and it is reported in the same
way. -/
theorem like_harvest_unknown (hR : ScopeCounts.Compatible R) (unknown : d.ruleFor p.node = none)
    (unknown' : d'.ruleFor p.node = none)
    (hreport : Yield.ofUnknown d' s p.node = Yield.ofUnknown d s p.node)
    (hbelow : ∀ c ∈ p.node.children [],
      Agree (Yield.Like R) (d.harvest s lines (c.placed p.node))
        (d'.harvest s lines (c.placed p.node))) :
    Agree (Yield.Like R) (d.harvest s lines p) (d'.harvest s lines p) := by
  have hall := like_harvestAll hR id hbelow
  rw [List.map_id] at hall
  rw [harvest, harvest]
  simp only [unknown, unknown', hreport]
  refine Agree.bind_same _ fun y => ?_
  exact hall.bind fun z z' hz => .ok ((Yield.Like.refl hR y).append hR hz)

end Dialect

/-! ### Walks -/

/-- Two scopes stand at the same place and have related numbers. Their names may differ. -/
structure Scope.CountsAs (R : ScopeCounts → ScopeCounts → Prop) (a b : Scope Int String) :
    Prop where
  index : a.index = b.index
  lines : a.lines = b.lines
  parent : a.parent = b.parent
  counts : R a.counts b.counts

/-- Two classes stand at the same place, have the same methods and related numbers. -/
structure ClassScope.CountsAs (R : ScopeCounts → ScopeCounts → Prop) (a b : ClassScope Int String) :
    Prop extends Scope.CountsAs R a.toScope b.toScope where
  depth : a.depth = b.depth
  methods : a.methods = b.methods

/-- Two walks find the same modules, functions and classes with related numbers, the same
dependencies and the same problems. -/
structure Walk.CountsAs (R : ScopeCounts → ScopeCounts → Prop) (v w : Walk) : Prop where
  module : Scope.CountsAs R v.tree.module w.tree.module
  functions : List.Forall₂ (Scope.CountsAs R) v.tree.functions w.tree.functions
  classes : List.Forall₂ (ClassScope.CountsAs R) v.tree.classes w.tree.classes
  found : v.found = w.found
  errors : v.errors = w.errors
  unsupported : v.unsupported = w.unsupported

/-- Scopes with the same numbers are related to the same ones. -/
theorem Scope.CountsAs.trans_eq {a b c : Scope Int String} (h : Scope.CountsAs R a b)
    (h' : Scope.CountsAs Eq b c) : Scope.CountsAs R a c :=
  ⟨h.index.trans h'.index, h.lines.trans h'.lines, h.parent.trans h'.parent, h'.counts ▸ h.counts⟩

/-- Lists that are related through a third one are related. -/
theorem forall₂_trans {α : Type} {S T U : α → α → Prop} {xs ys zs : List α}
    (hxy : List.Forall₂ S xs ys) (hyz : List.Forall₂ T ys zs)
    (h : ∀ a b c, S a b → T b c → U a c) : List.Forall₂ U xs zs := by
  induction hxy generalizing zs with
  | nil =>
    cases hyz
    exact .nil
  | cons hab _ ih =>
    cases hyz with
    | cons hbc hyz => exact .cons (h _ _ _ hab hbc) (ih hyz)

/-- What stands at a place of a list is related to what stands there in the other one. -/
theorem exists_of_forall₂ {α : Type} {S : α → α → Prop} {xs ys : List α}
    (h : List.Forall₂ S xs ys) {k : Nat} {a : α} (ha : xs[k]? = some a) :
    ∃ b, ys[k]? = some b ∧ S a b := by
  induction h generalizing k with
  | nil => cases ha
  | @cons a' b' _ _ hab _ ih =>
    cases k with
    | zero =>
      obtain rfl := Option.some.inj ha
      exact ⟨b', rfl, hab⟩
    | succ k => exact ih ha

/-- Walks with the same numbers are related to the same ones. -/
theorem Walk.CountsAs.trans_eq {u v w : Walk} (h : Walk.CountsAs R u v)
    (h' : Walk.CountsAs Eq v w) : Walk.CountsAs R u w where
  module := h.module.trans_eq h'.module
  functions := forall₂_trans h.functions h'.functions fun _ _ _ => Scope.CountsAs.trans_eq
  classes := forall₂_trans h.classes h'.classes fun _ _ _ hab hbc =>
    ⟨hab.toCountsAs.trans_eq hbc.toCountsAs, hab.depth.trans hbc.depth,
      hab.methods.trans hbc.methods⟩
  found := h.found.trans h'.found
  errors := h.errors.trans h'.errors
  unsupported := h.unsupported.trans h'.unsupported

/-- Scopes that are alike up to their names stay so with related gains. -/
theorem Scope.countsAs_collect (hR : ScopeCounts.Compatible R) {a b : Scope Int String}
    (h : Scope.CountsAs R a b) {g g' : Gain} (hgain : R g.counts g'.counts) :
    Scope.CountsAs R (a.collect g) (b.collect g') where
  index := h.index
  lines := h.lines
  parent := h.parent
  counts := by
    rw [counts_collect, counts_collect]
    exact hR.add h.counts hgain

/-- Functions that are alike have scopes with related numbers. -/
theorem FunctionYield.countsAs_scopes (hR : ScopeCounts.Compatible R) (base current : Nat)
    {fs gs : List (FunctionYield Gain)} (h : List.Forall₂ (FunctionYield.Like R) fs gs)
    (index anonymous anonymous' : Nat) :
    List.Forall₂ (Scope.CountsAs R) (scopes base current index anonymous fs)
      (scopes base current index anonymous' gs) := by
  -- How many functions had no name before may differ, and only names depend on it.
  induction h generalizing index anonymous anonymous' with
  | nil => exact .nil
  | @cons f g fs gs hfg _ ih =>
    have hhead : Scope.CountsAs R (f.scope base current index anonymous)
        (g.scope base current index anonymous') := by
      unfold scope
      rw [hfg.parent]
      refine Scope.countsAs_collect hR ?_ hfg.gain
      refine ⟨rfl, hfg.lines, rfl, ?_⟩
      -- A function starts with a number for each of its parameters.
      simp only [Scope.counts, hfg.params]
      exact hR.refl _
    exact .cons hhead (ih _ _ _)

/-- Classes that are alike have scopes with related numbers. -/
theorem ClassYield.countsAs_scopes (hR : ScopeCounts.Compatible R) (base current depth : Nat)
    {cs ds : List (ClassYield Gain)} (h : List.Forall₂ (ClassYield.Like R) cs ds) (index : Nat) :
    List.Forall₂ (ClassScope.CountsAs R) (scopes base current depth index cs)
      (scopes base current depth index ds) := by
  induction h generalizing index with
  | nil => exact .nil
  | @cons c d cs ds hcd _ ih =>
    have hhead : ClassScope.CountsAs R (c.scope base current depth index)
        (d.scope base current depth index) := by
      unfold scope
      rw [hcd.parent, hcd.depth, hcd.methods]
      refine ⟨Scope.countsAs_collect hR ?_ hcd.gain, rfl, rfl⟩
      exact ⟨rfl, hcd.lines, rfl, hR.refl _⟩
    exact .cons hhead (ih _)

/-- Yields that are alike lead to walks with related numbers. -/
theorem Yield.Like.countsAs_extend (hR : ScopeCounts.Compatible R) {y z : Yield Gain}
    (h : Yield.Like R y z) (lines : Lines Int) :
    Walk.CountsAs R ({ tree := ScopeTree.start lines : Walk }.extend y)
      ({ tree := ScopeTree.start lines : Walk }.extend z) := by
  have hnotes := congrArg (Walk.noteAll · ([], [])) h.unknown
  exact
    { module := Scope.countsAs_collect hR ⟨rfl, rfl, rfl, hR.refl _⟩ h.total
      functions := FunctionYield.countsAs_scopes hR _ _ h.functions _ _ _
      classes := ClassYield.countsAs_scopes hR _ _ _ h.classes _
      found := h.found
      errors := congrArg Prod.fst hnotes
      unsupported := congrArg Prod.snd hnotes }

/-- Roots with the same lines that yield alike have walks with related numbers, and the walks fail
together. -/
theorem Dialect.walks_count_as (hR : ScopeCounts.Compatible R) {d d' : Dialect} {s : Settings}
    {root root' : Document} (hlines : root'.lines? = root.lines?)
    (h : ∀ lines, root.lines? = .ok (some lines) →
      Agree (Yield.Like R) (d.harvest s lines { node := d.typedRoot root })
        (d'.harvest s lines { node := d'.typedRoot root' })) :
    Agree (Walk.CountsAs R) (d.walk s root) (d'.walk s root') := by
  rw [walk_eq_extend, walk_eq_extend, hlines]
  cases hfound : root.lines? with
  | error fault => exact .error _
  | ok found =>
    cases found with
    | none => exact .error _
    | some lines =>
      exact (h lines hfound).bind fun y z hyz => .ok (hyz.countsAs_extend hR lines)

end CodeMetrics
