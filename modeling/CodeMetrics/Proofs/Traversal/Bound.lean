import CodeMetrics.Dialect.Registry
import CodeMetrics.Proofs.Rule.Asking
import CodeMetrics.Proofs.Scope.Attribution
import CodeMetrics.Proofs.Traversal.Record
import Mathlib.Algebra.Order.Monoid.Defs

/-!
# `CodeMetrics.Proofs.Traversal.Bound`: no scope counts more than the module

The rules of the standard dialects never take anything away from a count. So what a tree yields is
not negative, and since all of it goes to the module, a function or a class inside gets no more than
the module does.

`ScopeCounts` are compared number by number, and sums can be compared term by term. `Yield.Bounded`
says of a yield that nothing in it is negative and that nothing exceeds the total. Yields that are
put together or put into a scope stay bounded, and `Dialect.harvest_induct` carries that over to
whole trees. `Dialect.scopes_bounded` is what it means at the end of a traversal: the module starts
with a path of its own, which is the one that a function has less.
-/

set_option autoImplicit false

namespace CodeMetrics

/-! ### Comparing counts -/

namespace ScopeCounts

/-- No number is greater. -/
instance : LE ScopeCounts :=
  ⟨fun a b => a.logical ≤ b.logical ∧ a.cyclomatic ≤ b.cyclomatic ∧ a.params ≤ b.params ∧
    a.operators ≤ b.operators ∧ a.operands ≤ b.operands⟩

theorem le_def {a b : ScopeCounts} :
    a ≤ b ↔ a.logical ≤ b.logical ∧ a.cyclomatic ≤ b.cyclomatic ∧ a.params ≤ b.params ∧
      a.operators ≤ b.operators ∧ a.operands ≤ b.operands := Iff.rfl

instance : PartialOrder ScopeCounts where
  le_refl a := by simp [le_def]
  le_trans a b c hab hbc := by
    rw [le_def] at hab hbc ⊢
    exact ⟨hab.1.trans hbc.1, hab.2.1.trans hbc.2.1, hab.2.2.1.trans hbc.2.2.1,
      hab.2.2.2.1.trans hbc.2.2.2.1, hab.2.2.2.2.trans hbc.2.2.2.2⟩
  le_antisymm a b hab hba := by
    rw [le_def] at hab hba
    exact ScopeCounts.ext (hab.1.antisymm hba.1) (hab.2.1.antisymm hba.2.1)
      (hab.2.2.1.antisymm hba.2.2.1) (hab.2.2.2.1.antisymm hba.2.2.2.1)
      (hab.2.2.2.2.antisymm hba.2.2.2.2)

/-- Adding the same to both keeps the order. -/
instance : IsOrderedAddMonoid ScopeCounts where
  add_le_add_left a b h c := by
    rw [le_def] at h
    simp only [le_def, logical_add, cyclomatic_add, params_add, operators_add, operands_add]
    refine ⟨by omega, by omega, by omega, ?_, ?_⟩
    · intro token
      exact Nat.add_le_add_right (h.2.2.2.1 token) _
    · intro token
      exact Nat.add_le_add_right (h.2.2.2.2 token) _

/-- The numbers that a function starts with are not negative. -/
theorem ofFunction_nonneg (params : Nat) : 0 ≤ ofFunction params := by
  rw [le_def]
  exact ⟨le_refl _, Int.one_nonneg, Int.natCast_nonneg params, fun _ => Nat.zero_le _,
    fun _ => Nat.zero_le _⟩

end ScopeCounts

/-- A gain is not negative if its lines, paths and parameters are not. -/
theorem Gain.counts_nonneg {g : Gain} (lines : 0 ≤ g.lines) (paths : 0 ≤ g.paths)
    (params : 0 ≤ g.params) : 0 ≤ g.counts := by
  rw [ScopeCounts.le_def]
  exact ⟨lines, paths, params, fun _ => Nat.zero_le _, fun _ => Nat.zero_le _⟩

@[simp] theorem Gain.counts_ofFunction (params : Nat) :
    (ofFunction params).counts = .ofFunction params := rfl

/-! ### Rules that take nothing away -/

/-- Whether a number can be told not to be negative at any node. -/
def Count.isNonneg : Count → Bool
  | .fixed n => decide (0 ≤ n)
  | .choose _ yes no => decide (0 ≤ yes) && decide (0 ≤ no)
  | .given _ => false

theorem Count.nonneg_of_read {count : Count} (h : count.isNonneg) {s : Settings} {p : Placed}
    {n : Int} (hread : count.read s p = .ok n) : 0 ≤ n := by
  cases count with
  | fixed m =>
    cases hread
    simpa [isNonneg] using h
  | given value => simp [isNonneg] at h
  | choose c yes no =>
    obtain ⟨hyes, hno⟩ : 0 ≤ yes ∧ 0 ≤ no := by simpa [isNonneg] using h
    obtain ⟨answer, -, hread⟩ := exists_of_bind_eq_ok hread
    cases hread
    cases answer with
    | true => exact hyes
    | false => exact hno

/-- Whether a rule takes nothing away from a count. -/
def Rule.isNonneg (r : Rule) : Bool :=
  r.lloc.isNonneg && r.cyclomatic.isNonneg

/-- The rules of the standard dialects take nothing away. -/
theorem Registry.isNonneg_rules :
    ∀ entry ∈ standard.entries, ∀ rule ∈ entry.2.rules, rule.2.isNonneg :=
  forall_rules (by decide +kernel) (by decide +kernel)

/-- What a node of a standard dialect adds is not negative. -/
theorem Registry.counts_nonneg {name : String} {d : Dialect}
    (standard : (name, d) ∈ standard.entries) {s : Settings} {p : Placed} {rule : Rule}
    {c : Contribution} (hrule : d.ruleFor p.node = some rule) (hread : rule.read s p = .ok c) :
    0 ≤ (Gain.ofContribution c).counts := by
  obtain ⟨kind, -, hfound⟩ := Option.bind_eq_some_iff.mp hrule
  have hnonneg := isNonneg_rules _ standard _ (Dialect.mem_of_find hfound)
  rw [Rule.isNonneg, Bool.and_eq_true] at hnonneg
  have hparts := Rule.reads_of_read hread
  apply Gain.counts_nonneg
  · exact Count.nonneg_of_read hnonneg.1 hparts.lloc
  · exact Count.nonneg_of_read hnonneg.2 hparts.cyclomatic
  · exact le_refl _

/-! ### Bounded yields -/

/-- Nothing in the yield is negative. The function around the tree, the class around it, and each
function and class inside get no more than the module. A function inside brings the path and the
parameters that it starts with to the module as well. -/
structure Yield.Bounded (y : Yield Gain) : Prop where
  own : 0 ≤ y.own.counts
  own_le : y.own.counts ≤ y.total.counts
  member : 0 ≤ y.member.counts
  member_le : y.member.counts ≤ y.total.counts
  functions : ∀ f ∈ y.functions,
    0 ≤ f.gain.counts ∧ .ofFunction f.params.length + f.gain.counts ≤ y.total.counts
  classes : ∀ c ∈ y.classes, 0 ≤ c.gain.counts ∧ c.gain.counts ≤ y.total.counts

namespace Yield.Bounded

variable {y z : Yield Gain}

/-- The module gets nothing negative. -/
theorem total (h : y.Bounded) : 0 ≤ y.total.counts :=
  h.own.trans h.own_le

/-- A yield that opens nothing is bounded if its gain is not negative. -/
theorem only {g : Gain} (h : 0 ≤ g.counts) (found : List (Dependency Int))
    (unknown : List (String × Diagnostic)) : (Yield.only g found unknown).Bounded where
  own := h
  own_le := le_refl _
  member := h
  member_le := le_refl _
  functions f hf := by cases hf
  classes c hc := by cases hc

/-- Two bounded yields are bounded together, since neither takes away from the total. -/
theorem append (hy : y.Bounded) (hz : z.Bounded) : (y ++ z).Bounded where
  own := by
    rw [own_append, Gain.counts_add]
    exact add_nonneg hy.own hz.own
  own_le := by
    rw [own_append, total_append, Gain.counts_add, Gain.counts_add]
    exact add_le_add hy.own_le hz.own_le
  member := by
    rw [member_append, Gain.counts_add]
    exact add_nonneg hy.member hz.member
  member_le := by
    rw [member_append, total_append, Gain.counts_add, Gain.counts_add]
    exact add_le_add hy.member_le hz.member_le
  functions := by
    rw [functions_append, total_append, Gain.counts_add]
    intro f hf
    -- The functions of the second yield come with other indices, but with the same gains.
    rcases List.mem_append.mp hf with hf | hf
    · obtain ⟨hnonneg, hle⟩ := hy.functions f hf
      exact ⟨hnonneg, hle.trans (le_add_of_nonneg_right hz.total)⟩
    · obtain ⟨g, hg, rfl⟩ := List.mem_map.mp hf
      obtain ⟨hnonneg, hle⟩ := hz.functions g hg
      exact ⟨hnonneg, hle.trans (le_add_of_nonneg_left hy.total)⟩
  classes := by
    rw [classes_append, total_append, Gain.counts_add]
    intro c hc
    rcases List.mem_append.mp hc with hc | hc
    · obtain ⟨hnonneg, hle⟩ := hy.classes c hc
      exact ⟨hnonneg, hle.trans (le_add_of_nonneg_right hz.total)⟩
    · obtain ⟨e, he, rfl⟩ := List.mem_map.mp hc
      obtain ⟨hnonneg, hle⟩ := hz.classes e he
      exact ⟨hnonneg, hle.trans (le_add_of_nonneg_left hy.total)⟩

/-- A function around a bounded yield. What opening it brings goes to the module and to the
function alike. -/
theorem inFunction (h : y.Bounded) (name : Option Document) (lines : Lines Int)
    (params : List Document) :
    (y.inFunction (.ofFunction params.length) name lines params).Bounded := by
  have hopening : 0 ≤ ScopeCounts.ofFunction params.length := ScopeCounts.ofFunction_nonneg _
  have htotal : (y.inFunction (.ofFunction params.length) name lines params).total.counts =
      .ofFunction params.length + y.total.counts := by simp [Yield.inFunction]
  have hwider : y.total.counts ≤ .ofFunction params.length + y.total.counts :=
    le_add_of_nonneg_left hopening
  constructor
  · exact le_refl _
  · rw [htotal]
    exact add_nonneg hopening h.total
  · simpa [Yield.inFunction] using add_nonneg hopening h.member
  · simpa [Yield.inFunction] using add_le_add_right h.member_le (.ofFunction params.length)
  · rw [htotal]
    intro f hf
    -- The function itself takes what the yield has for the function around it.
    rcases List.mem_cons.mp hf with rfl | hf
    · exact ⟨h.own, add_le_add_right h.own_le _⟩
    · obtain ⟨g, hg, rfl⟩ := List.mem_map.mp hf
      obtain ⟨hnonneg, hle⟩ := h.functions g hg
      exact ⟨hnonneg, hle.trans hwider⟩
  · rw [htotal]
    intro c hc
    obtain ⟨e, he, rfl⟩ := List.mem_map.mp hc
    obtain ⟨hnonneg, hle⟩ := h.classes e he
    exact ⟨hnonneg, hle.trans hwider⟩

/-- A class around a bounded yield. The class gets what the yield has for the class around it. -/
theorem inClass (h : y.Bounded) (name superName : Option Document) (lines : Lines Int) :
    (y.inClass name superName lines).Bounded where
  own := h.own
  own_le := h.own_le
  member := le_refl _
  member_le := h.total
  functions := h.functions
  classes c hc := by
    rcases List.mem_cons.mp hc with rfl | hc
    · exact ⟨h.member, h.member_le⟩
    · exact h.classes c hc

theorem enclose (h : y.Bounded) (form : ScopeForm) (rule : Rule) (p : Placed)
    (lines : Lines Int) : (y.enclose Gain.ofFunction form rule p lines).Bounded := by
  cases form with
  | classBody => exact h.inClass _ _ _
  | function => exact h.inFunction _ _ _

end Yield.Bounded

/-! ### What holds of all yields -/

namespace Dialect

variable {d : Dialect} {s : Settings}

/-- What holds of the yields of some children one by one holds of them together, if it holds of
nothing and of one yield after another. -/
theorem harvestAll_induct {P : Yield Gain → Prop} (hempty : P (.only 0))
    (happend : ∀ y z, P y → P z → P (y ++ z)) {lines : Lines Int} {parent : Document}
    {cs : List Child}
    (hchild : ∀ c ∈ cs, ∀ y, d.harvest s lines (c.placed parent) = .ok y → P y) {y : Yield Gain}
    (h : d.harvestAll s lines parent cs = .ok y) : P y := by
  induction cs generalizing y with
  | nil =>
    rw [harvestAll] at h
    cases h
    exact hempty
  | cons c rest ih =>
    rw [harvestAll] at h
    obtain ⟨first, hfirst, h⟩ := exists_of_bind_eq_ok h
    obtain ⟨others, hothers, h⟩ := exists_of_bind_eq_ok h
    cases h
    apply happend
    · exact hchild c List.mem_cons_self first hfirst
    · exact ih (fun c hc => hchild c (List.mem_cons_of_mem _ hc)) hothers

/-- What holds of the yields of single nodes, and of yields that are put together or put into a
scope, holds of the yield of every tree. It may depend on the lines around the tree, and on what is
known of those lines and the tree (`Q`), as long as this is handed down to the children. -/
theorem harvest_induct_on {Q : Lines Int → Document → Prop} {P : Lines Int → Yield Gain → Prop}
    (hempty : ∀ around, P around (.only 0))
    (happend : ∀ around y z, P around y → P around z → P around (y ++ z))
    (hscope : ∀ form rule (p : Placed) around found y, Q around p.node → p.node.lines? = .ok found →
      P (form.innerLines (found.getD around) around) y →
      P around (y.enclose Gain.ofFunction form rule p (found.getD around)))
    (hnode : ∀ around (p : Placed) (rule : Rule) (c : Contribution),
      d.ruleFor p.node = some rule → rule.read s p = .ok c → P around (.ofContribution s c))
    (hunknown : ∀ around node y, Yield.ofUnknown d s node = .ok y → P around y)
    (hbelow : ∀ around (node : Document) ignored, Q around node →
      ∀ c ∈ node.children ignored, Q around c.node)
    (hinside : ∀ (form : ScopeForm) around (node : Document) ignored found, Q around node →
      node.lines? = .ok found →
      ∀ c ∈ node.children ignored, Q (form.innerLines (found.getD around) around) c.node)
    {around : Lines Int} {p : Placed} {y : Yield Gain} (hp : Q around p.node)
    (h : d.harvest s around p = .ok y) : P around y := by
  induction hsize : p.node.size using Nat.strongRecOn generalizing p around y with
  | ind size ih =>
    -- The children are smaller, whichever of them are looked at.
    have hall : ∀ (ignored : List String) (cs : List Child),
        (∀ c ∈ cs, c ∈ p.node.children ignored) → ∀ around,
          (∀ c ∈ p.node.children ignored, Q around c.node) → ∀ y,
          d.harvestAll s around p.node cs = .ok y → P around y := by
      intro ignored cs hcs around hchildren y hy
      refine harvestAll_induct (hempty around) (happend around) (fun c hc z hz => ?_) hy
      have hlt : c.node.size < size := hsize ▸ Document.size_lt_of_mem_children (hcs c hc)
      exact ih _ hlt (hchildren c (hcs c hc)) hz rfl
    rw [harvest] at h
    cases hrule : d.ruleFor p.node with
    | none =>
      simp only [hrule] at h
      obtain ⟨own, hown, h⟩ := exists_of_bind_eq_ok h
      obtain ⟨below, hharvest, h⟩ := exists_of_bind_eq_ok h
      cases h
      apply happend
      · exact hunknown around p.node own hown
      · exact hall [] _ (fun _ hc => hc) around (hbelow around p.node [] hp) below hharvest
    | some rule =>
      simp only [hrule] at h
      obtain ⟨c, hc, h⟩ := exists_of_bind_eq_ok h
      have hown := hnode around p rule c hrule (eq_ok_of_mapError hc)
      have hchildren := hbelow around p.node c.ignored hp
      cases hopens : rule.opens with
      | none =>
        simp only [hopens] at h
        obtain ⟨below, hharvest, h⟩ := exists_of_bind_eq_ok h
        cases h
        exact happend around _ _ hown
          (hall c.ignored _ (fun _ hc => hc) around hchildren below hharvest)
      | some form =>
        -- The children outside and inside of the scope are both chosen from all children.
        have hfilter : ∀ keep : Child → Bool, ∀ child ∈ (p.node.children c.ignored).filter keep,
            child ∈ p.node.children c.ignored := fun keep _ hc => (List.mem_filter.mp hc).1
        simp only [hopens] at h
        obtain ⟨outside, houtside, h⟩ := exists_of_bind_eq_ok h
        obtain ⟨found, hfound, h⟩ := exists_of_bind_eq_ok h
        obtain ⟨inside, hharvest, h⟩ := exists_of_bind_eq_ok h
        cases h
        have hlines := eq_ok_of_mapError hfound
        apply happend around _ _ hown
        apply happend
        · exact hall c.ignored _ (hfilter _) around hchildren outside houtside
        · apply hscope form rule p around found inside hp hlines
          exact hall c.ignored _ (hfilter _) _
            (hinside form around p.node c.ignored found hp hlines) inside hharvest

/-- What depends neither on the lines around a tree nor on the tree holds of the yield of every
tree. -/
theorem harvest_induct {P : Yield Gain → Prop} (hempty : P (.only 0))
    (happend : ∀ y z, P y → P z → P (y ++ z))
    (hscope : ∀ form rule p lines y, P y → P (y.enclose Gain.ofFunction form rule p lines))
    (hnode : ∀ (p : Placed) (rule : Rule) (c : Contribution), d.ruleFor p.node = some rule →
      rule.read s p = .ok c → P (.ofContribution s c))
    (hunknown : ∀ node y, Yield.ofUnknown d s node = .ok y → P y)
    {lines : Lines Int} {p : Placed} {y : Yield Gain} (h : d.harvest s lines p = .ok y) : P y :=
  harvest_induct_on (Q := fun _ _ => True) (P := fun _ => P) (fun _ => hempty)
    (fun _ => happend) (fun form rule p _ _ y _ _ hy => hscope form rule p _ y hy)
    (fun _ => hnode) (fun _ => hunknown) (fun _ _ _ _ _ _ => trivial)
    (fun _ _ _ _ _ _ _ _ _ => trivial) trivial h

/-- The yield of a tree of a standard dialect is bounded. -/
theorem bounded_of_harvest {name : String} (standard : (name, d) ∈ Registry.standard.entries)
    {lines : Lines Int} {p : Placed} {y : Yield Gain} (h : d.harvest s lines p = .ok y) :
    y.Bounded := by
  have hzero : (0 : ScopeCounts) ≤ (0 : Gain).counts := le_refl _
  apply harvest_induct (P := Yield.Bounded) _ _ _ _ _ h
  · exact .only hzero _ _
  · intro y z hy hz
    exact hy.append hz
  · intro form rule p lines y hy
    exact hy.enclose form rule p lines
  · intro p rule c hrule hread
    exact .only (Registry.counts_nonneg standard hrule hread) _ _
  · intro node y hy
    obtain ⟨notes, rfl⟩ := Yield.exists_of_ofUnknown hy
    exact .only hzero _ _

end Dialect

/-! ### At the end of a traversal -/

/-- A tally that has each token at most as often as another one lists no more tokens. -/
theorem Tally.Counts.distinct_le {a b : Tally String} {tokens more : List String}
    (ha : a.Counts tokens) (hb : b.Counts more) (h : ∀ token, a.count token ≤ b.count token) :
    a.distinct ≤ b.distinct := by
  have hnodup : a.identifiers.Nodup := by
    rw [ha.identifiers]
    exact nodup_eraseDups tokens
  have hsubset : a.identifiers ⊆ b.identifiers := by
    intro token htoken
    -- A token is listed if and only if it is counted at least once.
    rw [ha.identifiers, List.mem_eraseDups, ← List.count_pos_iff, ← ha.count] at htoken
    rw [hb.identifiers, List.mem_eraseDups, ← List.count_pos_iff, ← hb.count]
    exact Nat.lt_of_lt_of_le htoken (h token)
  simpa [Tally.identifiers, distinct] using (hnodup.subperm hsubset).length_le

/-- A scope counts no more than another one, and it has at least `spare` paths less. -/
structure Scope.Within (spare : Int) (a b : Scope Int String) : Prop where
  logical : a.logical ≤ b.logical
  cyclomatic : a.cyclomatic ≤ b.cyclomatic - spare
  paramCount : a.paramCount ≤ b.paramCount
  operators : ∀ token, a.operators.count token ≤ b.operators.count token
  operands : ∀ token, a.operands.count token ≤ b.operands.count token
  distinctOperators : a.operators.distinct ≤ b.operators.distinct
  distinctOperands : a.operands.distinct ≤ b.operands.distinct

/-- The tallies of a scope count some tokens. -/
structure Scope.Tallied (scope : Scope Int String) : Prop where
  operators : ∃ tokens, scope.operators.Counts tokens
  operands : ∃ tokens, scope.operands.Counts tokens

namespace Scope

variable {a b scope : Scope Int String}

/-- A scope that was opened with nothing in its tallies. -/
theorem tallied_collect (g : Gain) (operators : scope.operators = {})
    (operands : scope.operands = {}) : (scope.collect g).Tallied where
  operators := by
    refine ⟨g.operators, ?_⟩
    simpa [collect, operators] using Tally.counts_empty.addAll g.operators
  operands := by
    refine ⟨g.operands, ?_⟩
    simpa [collect, operands] using Tally.counts_empty.addAll g.operands

/-- Comparing the counts is enough, since the tokens that are listed are those that are counted. -/
theorem Tallied.within (ha : a.Tallied) (hb : b.Tallied) {spare : Int}
    (h : a.counts + ⟨0, spare, 0, 0, 0⟩ ≤ b.counts) : a.Within spare b := by
  obtain ⟨hlogical, hcyclomatic, hparams, hoperators, hoperands⟩ := ScopeCounts.le_def.mp h
  obtain ⟨_, haoperators⟩ := ha.operators
  obtain ⟨_, haoperands⟩ := ha.operands
  obtain ⟨_, hboperators⟩ := hb.operators
  obtain ⟨_, hboperands⟩ := hb.operands
  constructor
  · simpa [counts] using hlogical
  · exact Int.le_sub_right_of_add_le hcyclomatic
  · simpa [counts] using hparams
  · exact hoperators
  · exact hoperands
  · exact haoperators.distinct_le hboperators hoperators
  · exact haoperands.distinct_le hboperands hoperands

/-- A scope that starts with a path has one as long as it gains nothing negative. -/
theorem floor_of_counts {params : Nat} {g : ScopeCounts}
    (h : scope.counts = .ofFunction params + g) (hg : 0 ≤ g) :
    1 ≤ scope.cyclomatic ∧ 0 ≤ scope.logical := by
  have hcyclomatic : scope.cyclomatic = 1 + g.cyclomatic := congrArg ScopeCounts.cyclomatic h
  have hlogical : scope.logical = 0 + g.logical := congrArg ScopeCounts.logical h
  obtain ⟨hlines, hpaths, -⟩ := ScopeCounts.le_def.mp hg
  simp only [ScopeCounts.logical_zero, ScopeCounts.cyclomatic_zero] at hlines hpaths
  omega

end Scope

namespace Dialect

variable {name : String} {d : Dialect} {s : Settings} {root : Document}

/-- After a traversal with a standard dialect every scope has at least one path and no negative
number of logical lines. No function counts more than the module, and it has at least one path less.
No class counts more than the module. -/
theorem scopes_bounded (standard : (name, d) ∈ Registry.standard.entries) {w : Walk}
    (done : d.walk s root = .ok w) :
    (∀ scope ∈ w.tree.scopes ++ w.tree.classes.map ClassScope.toScope,
      1 ≤ scope.cyclomatic ∧ 0 ≤ scope.logical) ∧
    (∀ f ∈ w.tree.functions, f.Within 1 w.tree.module) ∧
    ∀ c ∈ w.tree.classes, c.toScope.Within 0 w.tree.module := by
  obtain ⟨lines, y, -, hy, rfl⟩ := exists_yield done
  have hbounded := bounded_of_harvest standard hy
  have hmodule : ((ScopeTree.start lines).extend y).module.counts =
      .ofFunction 0 + y.total.counts := Scope.counts_collect _ _
  have hfunction : ∀ (f : FunctionYield Gain) index anonymous,
      (f.scope 0 0 index anonymous).counts = .ofFunction f.params.length + f.gain.counts :=
    fun f _ _ => Scope.counts_collect f.gain _
  have hclass : ∀ (c : ClassYield Gain) index,
      (c.scope 0 0 0 index).toScope.counts = .ofFunction 0 + c.gain.counts :=
    fun c _ => Scope.counts_collect c.gain _
  have htallied : ((ScopeTree.start lines).extend y).module.Tallied :=
    Scope.tallied_collect y.total rfl rfl
  rw [ScopeTree.scopes, Walk.tree_extend, functions_extend_start, classes_extend_start]
  refine ⟨?_, ?_, ?_⟩
  · intro scope hscope
    rcases List.mem_append.mp hscope with hscope | hscope
    · rcases List.mem_cons.mp hscope with rfl | hscope
      · exact Scope.floor_of_counts hmodule hbounded.total
      · obtain ⟨f, hf, index, anonymous, rfl⟩ := FunctionYield.exists_of_mem_scopes hscope
        exact Scope.floor_of_counts (hfunction f index anonymous) (hbounded.functions f hf).1
    · obtain ⟨_, hmem, rfl⟩ := List.mem_map.mp hscope
      obtain ⟨c, hc, index, rfl⟩ := ClassYield.exists_of_mem_scopes hmem
      exact Scope.floor_of_counts (hclass c index) (hbounded.classes c hc).1
  · intro scope hscope
    obtain ⟨f, hf, index, anonymous, rfl⟩ := FunctionYield.exists_of_mem_scopes hscope
    apply (Scope.tallied_collect f.gain rfl rfl).within htallied
    -- The path that a function has less is the one that the module starts with.
    show (f.scope 0 0 index anonymous).counts + .ofFunction 0 ≤ _
    rw [hfunction, hmodule, add_comm]
    exact add_le_add_right (hbounded.functions f hf).2 _
  · intro scope hscope
    obtain ⟨c, hc, index, rfl⟩ := ClassYield.exists_of_mem_scopes hscope
    apply (Scope.tallied_collect c.gain rfl rfl).within htallied
    show (c.scope 0 0 0 index).toScope.counts + 0 ≤ _
    rw [hclass, hmodule, add_zero]
    exact add_le_add_right (hbounded.classes c hc).2 _

end Dialect

/-- The three functions and the two classes of the module with nested scopes are bounded by it. -/
theorem scopes_bounded_nested :
    ("estree", Estree.dialect) ∈ Registry.standard.entries ∧
    ∃ w, Estree.dialect.walk {} Sample.nested = .ok w ∧
      w.tree.functions.length = 3 ∧ w.tree.classes.length = 2 ∧
      (∀ f ∈ w.tree.functions, 1 ≤ f.cyclomatic ∧ f.Within 1 w.tree.module) ∧
      ∀ c ∈ w.tree.classes, c.toScope.Within 0 w.tree.module := by
  have hstandard : ("estree", Estree.dialect) ∈ Registry.standard.entries := List.mem_cons_self
  obtain ⟨w, hw, hthree, htwo⟩ := Sample.walk_nested
  obtain ⟨hfloor, hfunctions, hclasses⟩ := Dialect.scopes_bounded hstandard hw
  refine ⟨hstandard, w, hw, hthree, htwo, ?_, hclasses⟩
  intro f hf
  have hscope : f ∈ w.tree.scopes := List.mem_cons_of_mem _ hf
  exact ⟨(hfloor f (List.mem_append_left _ hscope)).1, hfunctions f hf⟩

end CodeMetrics
