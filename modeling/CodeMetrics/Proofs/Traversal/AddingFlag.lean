import CodeMetrics.Proofs.Document.Field
import CodeMetrics.Proofs.Traversal.Bound
import CodeMetrics.Proofs.Traversal.Warning

/-!
# `CodeMetrics.Proofs.Traversal.AddingFlag`: flags that only add

The tokens of imports and exports and those of templates are counted only if a flag is on.
Turning such a flag on never takes anything away: it adds tokens, and it lets the traversal see
children that it passed over before.

That is a fact about the rules, and it can be tested. `Condition.keeps` says on which side of a
condition its flags stand, so that an answer stays what it is when they are turned on. A rule
grows (`Rule.grows`) if its tokens stay, if its numbers do not ask the flags, and if it passes over
no more keys than before.

`Yield.Grows` compares what a tree yields under both settings. A child that is seen only under
the second settings yields nothing negative (`Dialect.bounded_of_harvest`), so it does no harm.
-/

set_option autoImplicit false

namespace CodeMetrics

/-! ### Answers that stay -/

/-- The settings `t` are the settings `s` with some of the given flags turned on. -/
structure Settings.TurnedOn (flags : List Flag) (s t : Settings) : Prop
    extends s.DifferIn flags t where
  stays : ∀ f ∈ flags, s.on f → t.on f

/-- Whether an answer to a condition stays when some of the flags are turned on. A negation turns
the sides around. -/
def Condition.keeps (flags : List Flag) (answer : Bool) : Condition → Bool
  | .flag f => answer || !flags.contains f
  | .not c => c.keeps flags (!answer)
  | .and a b | .or a b => a.keeps flags answer && b.keeps flags answer
  | _ => true

section

variable {flags : List Flag} {s t : Settings} {p : Placed}

/-- An answer that stays is the answer after turning on flags, if there is one. -/
theorem Condition.holds_of_keeps (turned : s.TurnedOn flags t) {c : Condition} {answer : Bool}
    (h : c.keeps flags answer) {before after : Bool} (hbefore : c.holds s p = .ok before)
    (hafter : c.holds t p = .ok after) (hanswer : before = answer) : after = answer := by
  induction c generalizing answer before after with
  | flag f =>
    cases hbefore
    cases hafter
    by_cases hf : f ∈ flags
    · -- The flag may have been turned on, so only the answer yes stays.
      obtain rfl : answer = true := by simpa [keeps, hf] using h
      exact turned.stays f hf hanswer
    · exact (turned.on f hf).trans hanswer
  | not c ih =>
    obtain ⟨inner, hinner, hbefore⟩ := exists_of_bind_eq_ok hbefore
    obtain ⟨inner', hinner', hafter⟩ := exists_of_bind_eq_ok hafter
    cases hbefore
    cases hafter
    have hsame : inner' = !answer := ih h hinner hinner' (by rw [← hanswer, Bool.not_not])
    rw [hsame, Bool.not_not]
  | and a b iha ihb =>
    obtain ⟨ha, hb⟩ : a.keeps flags answer ∧ b.keeps flags answer := by simpa [keeps] using h
    obtain ⟨first, hfirst, hbefore⟩ := exists_of_bind_eq_ok hbefore
    obtain ⟨first', hfirst', hafter⟩ := exists_of_bind_eq_ok hafter
    have hkept : first = answer → first' = answer := iha ha hfirst hfirst'
    cases first with
    | false =>
      -- The first part decides, and it goes on to do so.
      cases hbefore
      rw [hkept hanswer] at hafter
      subst hanswer
      cases hafter
      rfl
    | true =>
      cases first' with
      | true => exact ihb hb hbefore hafter hanswer
      | false =>
        cases hafter
        cases answer with
        | false => rfl
        | true => exact hkept rfl
  | or a b iha ihb =>
    obtain ⟨ha, hb⟩ : a.keeps flags answer ∧ b.keeps flags answer := by simpa [keeps] using h
    obtain ⟨first, hfirst, hbefore⟩ := exists_of_bind_eq_ok hbefore
    obtain ⟨first', hfirst', hafter⟩ := exists_of_bind_eq_ok hafter
    have hkept : first = answer → first' = answer := iha ha hfirst hfirst'
    cases first with
    | true =>
      cases hbefore
      rw [hkept hanswer] at hafter
      subst hanswer
      cases hafter
      rfl
    | false =>
      cases first' with
      | false => exact ihb hb hbefore hafter hanswer
      | true =>
        cases hafter
        cases answer with
        | true => rfl
        | false => exact hkept rfl
  | _ =>
    -- The other conditions do not ask for flags.
    exact (Except.ok.inj (hafter.symm.trans hbefore)).trans hanswer

/-! ### Rules that grow -/

/-- Whether a token is none. -/
def Token.isNothing : Token → Bool
  | .nothing => true
  | _ => false

/-- Whether the identifiers of a token stay when some of the flags are turned on. A choice between
two tokens may change only from nothing to something. -/
def Token.grows (flags : List Flag) : Token → Bool
  | .choose c yes no =>
    yes.grows flags && no.grows flags && c.keeps flags true &&
      (c.keeps flags false || no.isNothing)
  | _ => true

/-- Whether no more keys are passed over when some of the flags are turned on. -/
def Skip.shrinks (flags : List Flag) : Skip → Bool
  | .when c _ => c.keeps flags false
  | .given _ => true

/-- Whether a rule reads no less when some of the flags are turned on, and the same numbers. -/
def Rule.grows (flags : List Flag) (r : Rule) : Bool :=
  (r.lloc.flags ++ r.cyclomatic.flags).all (!flags.contains ·) &&
    (r.operators ++ r.operands).all (Token.grows flags) && r.skip.shrinks flags

/-- The identifiers of a token are still there after turning on flags. -/
theorem Token.sublist_of_grows (turned : s.TurnedOn flags t) {token : Token}
    (h : token.grows flags) {before after : List String} (hbefore : token.read s p = .ok before)
    (hafter : token.read t p = .ok after) : before.Sublist after := by
  induction token generalizing before after with
  | choose c yes no ihyes ihno =>
    simp only [grows, Bool.and_eq_true, Bool.or_eq_true] at h
    obtain ⟨⟨⟨hyes, hno⟩, hkeeps⟩, hchange⟩ := h
    obtain ⟨answer, hanswer, hbefore⟩ := exists_of_bind_eq_ok hbefore
    obtain ⟨answer', hanswer', hafter⟩ := exists_of_bind_eq_ok hafter
    cases answer with
    | true =>
      rw [Condition.holds_of_keeps turned hkeeps hanswer hanswer' rfl] at hafter
      exact ihyes hyes hbefore hafter
    | false =>
      cases answer' with
      | false => exact ihno hno hbefore hafter
      | true =>
        -- The answer has changed, so there was nothing before.
        rcases hchange with hfixed | hnothing
        · cases Condition.holds_of_keeps turned hfixed hanswer hanswer' rfl
        · cases no with
          | nothing =>
            cases hbefore
            exact List.nil_sublist after
          | _ => simp [isNothing] at hnothing
  | _ =>
    have hsame : before = after := Except.ok.inj (hbefore.symm.trans hafter)
    exact hsame ▸ List.Sublist.refl before

/-- The identifiers of several tokens are still there. -/
theorem Token.sublist_readAll (turned : s.TurnedOn flags t) {tokens : List Token}
    (h : ∀ token ∈ tokens, token.grows flags) {before after : List String}
    (hbefore : Token.readAll s p tokens = .ok before)
    (hafter : Token.readAll t p tokens = .ok after) : before.Sublist after := by
  induction tokens generalizing before after with
  | nil =>
    cases hbefore
    exact List.nil_sublist after
  | cons token rest ih =>
    obtain ⟨here, hhere, hbefore⟩ := exists_of_bind_eq_ok hbefore
    obtain ⟨others, hothers, hbefore⟩ := exists_of_bind_eq_ok hbefore
    obtain ⟨here', hhere', hafter⟩ := exists_of_bind_eq_ok hafter
    obtain ⟨others', hothers', hafter⟩ := exists_of_bind_eq_ok hafter
    cases hbefore
    cases hafter
    apply List.Sublist.append
    · exact sublist_of_grows turned (h token List.mem_cons_self) hhere hhere'
    · exact ih (fun token htoken => h token (List.mem_cons_of_mem _ htoken)) hothers hothers'

/-- The keys that are passed over were passed over before. -/
theorem Skip.subset_of_shrinks (turned : s.TurnedOn flags t) {skip : Skip}
    (h : skip.shrinks flags) {before after : List String} (hbefore : skip.read s p = .ok before)
    (hafter : skip.read t p = .ok after) : after ⊆ before := by
  cases skip with
  | given value =>
    have hsame : after = before := Except.ok.inj (hafter.symm.trans hbefore)
    exact hsame ▸ List.Subset.refl after
  | when c keys =>
    obtain ⟨answer, hanswer, hbefore⟩ := exists_of_bind_eq_ok hbefore
    obtain ⟨answer', hanswer', hafter⟩ := exists_of_bind_eq_ok hafter
    cases hbefore
    cases hafter
    cases answer with
    | true => cases answer' <;> simp
    | false =>
      rw [Condition.holds_of_keeps turned h hanswer hanswer' rfl]
      exact List.Subset.refl _

/-- A node contributes the same numbers and the same dependency. Its tokens are still there, and no
more keys are passed over. -/
structure Contribution.Grows (c c' : Contribution) : Prop where
  lloc : c'.lloc = c.lloc
  cyclomatic : c'.cyclomatic = c.cyclomatic
  operators : c.operators.Sublist c'.operators
  operands : c.operands.Sublist c'.operands
  dependency : c'.dependency = c.dependency
  ignored : c'.ignored ⊆ c.ignored

/-- What a rule that grows reads after turning on flags. -/
theorem Rule.grows_of_read (turned : s.TurnedOn flags t) (hcalls : Flag.commonjs ∉ flags)
    {r : Rule} (h : r.grows flags) {c c' : Contribution} (hbefore : r.read s p = .ok c)
    (hafter : r.read t p = .ok c') : c.Grows c' := by
  simp only [grows, Bool.and_eq_true, List.all_append, List.all_eq_true] at h
  obtain ⟨⟨⟨hlloc, hcyclomatic⟩, hoperators, hoperands⟩, hskip⟩ := h
  have before := reads_of_read hbefore
  have after := reads_of_read hafter
  -- Numbers do not ask the flags, so they do not notice.
  have hnotice : ∀ n : Count, (∀ f ∈ n.flags, (!flags.contains f) = true) →
      n.read t p = n.read s p := by
    intro n hn
    apply Unnoticed.count_eq
    apply turned.unnoticed
    intro f hf
    simpa using hn f hf
  constructor
  · exact Except.ok.inj (after.lloc.symm.trans ((hnotice r.lloc hlloc).trans before.lloc))
  · exact Except.ok.inj
      (after.cyclomatic.symm.trans ((hnotice r.cyclomatic hcyclomatic).trans before.cyclomatic))
  · exact Token.sublist_readAll turned hoperators before.operators after.operators
  · exact Token.sublist_readAll turned hoperands before.operands after.operands
  · have hfound : r.dependencyAt t p.node = r.dependencyAt s p.node :=
      dependencyAt_congr (turned.on .commonjs hcalls) turned.requireName p.node
    exact Except.ok.inj (after.dependency.symm.trans (hfound.trans before.dependency))
  · exact Skip.subset_of_shrinks turned hskip before.ignored after.ignored

end

/-- In the standard dialects the flags for the tokens of modules and templates only add. -/
theorem Registry.grows_rules :
    ∀ entry ∈ standard.entries, ∀ rule ∈ entry.2.rules,
      rule.2.grows [.esmHalstead, .templateHalstead] :=
  forall_rules (by decide +kernel) (by decide +kernel)

/-! ### Trees -/

/-- The second yield has no less for the module, with the same dependencies and unknown kinds among
its own. -/
structure Yield.Grows (y z : Yield Gain) : Prop where
  total : y.total.counts ≤ z.total.counts
  found : y.found.Sublist z.found
  unknown : (y.unknown.map Prod.fst).Sublist (z.unknown.map Prod.fst)

namespace Yield.Grows

variable {y y' z z' : Yield Gain}

theorem refl (y : Yield Gain) : y.Grows y where
  total := le_refl _
  found := List.Sublist.refl _
  unknown := List.Sublist.refl _

/-- Yields grow together. -/
theorem append (h : y.Grows z) (h' : y'.Grows z') : (y ++ y').Grows (z ++ z') where
  total := by
    simp only [total_append, Gain.counts_add]
    exact add_le_add h.total h'.total
  found := h.found.append h'.found
  unknown := by
    simp only [unknown_append, List.map_append]
    exact h.unknown.append h'.unknown

/-- A yield that comes on top takes nothing away. -/
theorem append_left (h : y.Grows z) {x : Yield Gain} (hx : x.Bounded) : y.Grows (x ++ z) where
  total := by
    simp only [total_append, Gain.counts_add]
    exact le_add_of_nonneg_of_le hx.total h.total
  found := h.found.trans (List.sublist_append_right _ _)
  unknown := by
    simp only [unknown_append, List.map_append]
    exact h.unknown.trans (List.sublist_append_right _ _)

/-- Opening a scope brings the same to both. -/
theorem enclose (h : y.Grows z) (form : ScopeForm) (rule : Rule) (p : Placed)
    (lines lines' : Lines Int) :
    (y.enclose Gain.ofFunction form rule p lines).Grows
      (z.enclose Gain.ofFunction form rule p lines') := by
  cases form with
  | classBody => exact ⟨h.total, h.found, h.unknown⟩
  | function =>
    refine ⟨?_, h.found, h.unknown⟩
    simp only [Yield.enclose, Yield.inFunction, Gain.counts_add]
    exact add_le_add_right h.total _

/-- A single node yields no less if it contributes no less. -/
theorem ofContribution {s t : Settings} (hresolver : t.resolver = s.resolver)
    {c c' : Contribution} (h : c.Grows c') :
    (Yield.ofContribution s c).Grows (Yield.ofContribution t c') where
  total := by
    rw [ScopeCounts.le_def]
    refine ⟨le_of_eq h.lloc.symm, le_of_eq h.cyclomatic.symm, le_refl _, ?_, ?_⟩
    · intro token
      exact h.operators.count_le token
    · intro token
      exact h.operands.count_le token
  found := by
    simp only [Yield.ofContribution, only_found, h.dependency, Dependency.resolved_congr hresolver]
    exact List.Sublist.refl _
  unknown := List.Sublist.refl _

end Yield.Grows

namespace Dialect

variable {name : String} {d : Dialect} {s t : Settings} {flags : List Flag}

/-- Some children yield no less if more of them are looked at. -/
theorem grows_of_harvestAll (standard : (name, d) ∈ Registry.standard.entries) {parent : Document}
    {cs cs' : List Child} (hsub : cs.Sublist cs')
    (hchild : ∀ c ∈ cs, ∀ lines lines' y z, d.harvest s lines (c.placed parent) = .ok y →
      d.harvest t lines' (c.placed parent) = .ok z → y.Grows z)
    {lines lines' : Lines Int} {y z : Yield Gain} (hy : d.harvestAll s lines parent cs = .ok y)
    (hz : d.harvestAll t lines' parent cs' = .ok z) : y.Grows z := by
  induction hsub generalizing y z with
  | slnil =>
    rw [harvestAll] at hy hz
    cases hy
    cases hz
    exact .refl _
  --  cons c hsub ih|The child that is looked at only with the flag comes on top.
  | cons c hsub ih =>
    rw [harvestAll] at hz
    obtain ⟨more, hmore, hz⟩ := exists_of_bind_eq_ok hz
    obtain ⟨others, hothers, hz⟩ := exists_of_bind_eq_ok hz
    cases hz
    exact (ih hchild hy hothers).append_left (bounded_of_harvest standard hmore)
  | cons_cons c hsub ih =>
    rw [harvestAll] at hy hz
    obtain ⟨first, hfirst, hy⟩ := exists_of_bind_eq_ok hy
    obtain ⟨rest, hrest, hy⟩ := exists_of_bind_eq_ok hy
    obtain ⟨first', hfirst', hz⟩ := exists_of_bind_eq_ok hz
    obtain ⟨rest', hrest', hz⟩ := exists_of_bind_eq_ok hz
    cases hy
    cases hz
    apply Yield.Grows.append
    · exact hchild c List.mem_cons_self lines lines' first first' hfirst hfirst'
    · exact ih (fun c hc => hchild c (List.mem_cons_of_mem _ hc)) hrest hrest'

/-- A tree yields no less after turning on flags that only add. -/
theorem grows_of_harvest (standard : (name, d) ∈ Registry.standard.entries)
    (turned : s.TurnedOn flags t) (hcalls : Flag.commonjs ∉ flags)
    (hstrict : Flag.strict ∉ flags)
    (hrules : ∀ rule ∈ d.rules, rule.2.grows flags) {lines lines' : Lines Int} {p : Placed}
    {y z : Yield Gain} (hy : d.harvest s lines p = .ok y) (hz : d.harvest t lines' p = .ok z) :
    y.Grows z := by
  induction hsize : p.node.size using Nat.strongRecOn generalizing p lines lines' y z with
  | ind size ih =>
    have hall : ∀ {ignored : List String} {cs cs' : List Child}, cs.Sublist cs' →
        cs.Sublist (p.node.children ignored) → ∀ {lines lines' y z},
          d.harvestAll s lines p.node cs = .ok y →
          d.harvestAll t lines' p.node cs' = .ok z → y.Grows z := by
      intro ignored cs cs' hmore hcs lines lines' y z hy hz
      apply grows_of_harvestAll standard hmore _ hy hz
      intro c hc lines lines' y z hy hz
      have hlt : c.node.size < size :=
        hsize ▸ Document.size_lt_of_mem_children (hcs.subset hc)
      exact ih _ hlt hy hz rfl
    rw [harvest] at hy hz
    cases hrule : d.ruleFor p.node with
    | none =>
      simp only [hrule] at hy hz
      obtain ⟨own, hown, hy⟩ := exists_of_bind_eq_ok hy
      obtain ⟨below, hbelow, hy⟩ := exists_of_bind_eq_ok hy
      obtain ⟨own', hown', hz⟩ := exists_of_bind_eq_ok hz
      obtain ⟨below', hbelow', hz⟩ := exists_of_bind_eq_ok hz
      cases hy
      cases hz
      have hsame : own = own' := by
        rw [Yield.ofUnknown, turned.on .strict hstrict] at hown'
        exact Except.ok.inj (hown.symm.trans hown')
      rw [← hsame]
      exact (Yield.Grows.refl own).append
        (hall (List.Sublist.refl _) (List.Sublist.refl _) hbelow hbelow')
    | some rule =>
      simp only [hrule] at hy hz
      obtain ⟨c, hc, hy⟩ := exists_of_bind_eq_ok hy
      obtain ⟨c', hc', hz⟩ := exists_of_bind_eq_ok hz
      obtain ⟨kind, -, hfound⟩ := Option.bind_eq_some_iff.mp hrule
      have hgrows : c.Grows c' := Rule.grows_of_read turned hcalls (hrules _ (mem_of_find hfound))
        (eq_ok_of_mapError hc) (eq_ok_of_mapError hc')
      have hown := Yield.Grows.ofContribution turned.resolver hgrows
      have hchildren := p.node.children_sublist hgrows.ignored
      cases hopens : rule.opens with
      | none =>
        simp only [hopens] at hy hz
        obtain ⟨below, hbelow, hy⟩ := exists_of_bind_eq_ok hy
        obtain ⟨below', hbelow', hz⟩ := exists_of_bind_eq_ok hz
        cases hy
        cases hz
        exact hown.append (hall hchildren (List.Sublist.refl _) hbelow hbelow')
      | some form =>
        simp only [hopens] at hy hz
        obtain ⟨outside, houtside, hy⟩ := exists_of_bind_eq_ok hy
        obtain ⟨found, -, hy⟩ := exists_of_bind_eq_ok hy
        obtain ⟨inside, hinside, hy⟩ := exists_of_bind_eq_ok hy
        obtain ⟨outside', houtside', hz⟩ := exists_of_bind_eq_ok hz
        obtain ⟨found', -, hz⟩ := exists_of_bind_eq_ok hz
        obtain ⟨inside', hinside', hz⟩ := exists_of_bind_eq_ok hz
        cases hy
        cases hz
        -- A child that was looked at before stays on its side of the scope.
        have hout := hall (hchildren.filter _) List.filter_sublist houtside houtside'
        have hin := hall (hchildren.filter _) List.filter_sublist hinside hinside'
        exact hown.append (hout.append (hin.enclose form rule p _ _))

/-- Turning on the tokens of modules or templates takes nothing away. Where both traversals come to
their ends, the module has no less of anything, the dependencies are still there, and so are the
unknown kinds. -/
theorem module_grows_with_tokens (standard : (name, d) ∈ Registry.standard.entries)
    (turned : s.TurnedOn [.esmHalstead, .templateHalstead] t) {root : Document} {v w : Walk}
    (before : d.walk s root = .ok v) (after : d.walk t root = .ok w) :
    v.tree.module.Within 0 w.tree.module ∧ v.dependencies.Subperm w.dependencies ∧
      v.unsupported ⊆ w.unsupported := by
  obtain ⟨lines, y, -, hy, rfl⟩ := exists_yield before
  obtain ⟨lines', z, -, hz, rfl⟩ := exists_yield after
  have hgrows : y.Grows z := grows_of_harvest standard turned (by decide) (by decide)
    (Registry.grows_rules _ standard) hy hz
  refine ⟨?_, ?_, ?_⟩
  · apply (Scope.tallied_collect y.total rfl rfl).within (Scope.tallied_collect z.total rfl rfl)
    show (Scope.collect y.total _).counts + 0 ≤ _
    rw [add_zero, Scope.counts_collect, Scope.counts_collect]
    exact add_le_add_right hgrows.total _
  -- Recorded in order, and then sorted by line: no order is left to compare, only what is there.
  · have hsorted : ∀ found : List (Dependency Int), (Dependency.inLineOrder found).Perm found :=
      fun found => List.mergeSort_perm found _
    exact ((hsorted _).subperm.trans hgrows.found.subperm).trans (hsorted _).symm.subperm
  · intro kind hkind
    have hmet := (Walk.mem_noteAll y.unknown ([], []) kind).mp hkind
    apply (Walk.mem_noteAll z.unknown ([], []) kind).mpr
    exact hmet.imp id fun hmem => hgrows.unknown.subset hmem

end Dialect

namespace Sample

/-- The settings that count neither the tokens of modules nor those of templates. -/
def plainSettings : Settings := { templateHalstead := .bool false }

/-- The settings that count the tokens of modules and templates. -/
def fullSettings : Settings := { esmHalstead := .bool true }

/-- A module with an import and a template. One part of the template is a late import, and another
one is a node of an unknown kind. -/
def template : Document :=
  node "Program"
    [("body", .list
      [node "ImportDeclaration"
        [("specifiers", .list [node "ImportSpecifier" [("local", name "unit")]]),
         ("source", node "Literal" [("value", .string "./units")]), ("loc", location)],
       node "TemplateLiteral"
        [("quasis", .list
          [node "TemplateElement" [("value", .object [("raw", .string "per ")])],
           node "ImportExpression"
            [("source", node "Literal" [("value", .string "./late")]), ("loc", location)],
           node "Mark" []]),
         ("expressions", .list [name "unit"])]]),
     ("loc", location)]

end Sample

/-- In the module with a template the tokens of the import and of the template come on top, and so
do the late import and the unknown kind. -/
theorem module_grows_with_tokens_template :
    ("babel", Babel.dialect) ∈ Registry.standard.entries ∧
    Sample.plainSettings.TurnedOn [.esmHalstead, .templateHalstead] Sample.fullSettings ∧
    ∃ v w, Babel.dialect.walk Sample.plainSettings Sample.template = .ok v ∧
      Babel.dialect.walk Sample.fullSettings Sample.template = .ok w ∧
      v.tree.module.operators.identifiers = [] ∧
      w.tree.module.operators.identifiers = ["import", "from", "``", "import()"] ∧
      v.found.length = 1 ∧ w.found.length = 2 ∧
      v.unsupported = [] ∧ w.unsupported = ["Mark"] ∧
      v.tree.module.Within 0 w.tree.module ∧ v.dependencies.Subperm w.dependencies := by
  have hstandard : ("babel", Babel.dialect) ∈ Registry.standard.entries :=
    List.mem_cons_of_mem _ List.mem_cons_self
  have hturned : Sample.plainSettings.TurnedOn [.esmHalstead, .templateHalstead]
      Sample.fullSettings := by
    -- The settings differ in the two flags, and both are on afterwards.
    refine ⟨⟨?_, rfl, rfl⟩, ?_⟩
    · intro f hf
      cases f with
      | esmHalstead => simp at hf
      | templateHalstead => simp at hf
      | _ => rfl
    · intro f hf hon
      simp only [List.mem_cons, List.not_mem_nil, or_false] at hf
      rcases hf with rfl | rfl <;> rfl
  have hplain : (Babel.dialect.walk Sample.plainSettings Sample.template).toOption.map
      (fun v => (v.tree.module.operators.identifiers, v.found.length, v.unsupported)) =
        some ([], 1, []) := by
    rw [Babel.dialect_eq]
    decide +kernel
  have hfull : (Babel.dialect.walk Sample.fullSettings Sample.template).toOption.map
      (fun w => (w.tree.module.operators.identifiers, w.found.length, w.unsupported)) =
        some (["import", "from", "``", "import()"], 2, ["Mark"]) := by
    rw [Babel.dialect_eq]
    decide +kernel
  obtain ⟨v, hv, hbefore⟩ := exists_ok_of_map_toOption hplain
  obtain ⟨w, hw, hafter⟩ := exists_ok_of_map_toOption hfull
  simp only [Prod.mk.injEq] at hbefore hafter
  have hgrows := Dialect.module_grows_with_tokens hstandard hturned hv hw
  exact ⟨hstandard, hturned, v, w, hv, hw, hbefore.1, hafter.1, hbefore.2.1, hafter.2.1,
    hbefore.2.2, hafter.2.2, hgrows.1, hgrows.2.1⟩

end CodeMetrics
