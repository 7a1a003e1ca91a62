import CodeMetrics.Proofs.Dialect.MirroredNode
import CodeMetrics.Proofs.Scope.Attribution
import CodeMetrics.Proofs.Traversal.Likeness
import CodeMetrics.Proofs.Traversal.Lockstep

/-!
# `CodeMetrics.Proofs.Dialect.StatementCall`: optional calls that are statements

A call that is a statement counts no line of its own. `Babel.lined` are the rules for Babel trees
where an optional call counts one all the same. Both sets of rules visit the same nodes in the
same order (`script_lined`) and differ by a line at each optional call that is a statement
(`lloc_lined`). So a scope counts one line more for each of them that it owns (`logical_lined`),
and nothing else is different (`walks_lined`).
-/

set_option autoImplicit false

namespace CodeMetrics

/-- The second numbers have some more logical lines, and nothing else is different. -/
def ScopeCounts.MoreLines (a b : ScopeCounts) : Prop :=
  ∃ n : Nat, b = { a with logical := a.logical + n }

theorem ScopeCounts.compatible_moreLines : Compatible MoreLines where
  refl a := ⟨0, by simp⟩
  add := by
    rintro a _ c _ ⟨m, rfl⟩ ⟨n, rfl⟩
    refine ⟨m + n, ScopeCounts.ext ?_ rfl rfl rfl rfl⟩
    simp only [logical_add]
    omega

namespace Babel

open Document

variable {s : Settings} {p : Placed} {root : Document}

/-! ### Rules for optional calls -/

/-- The rule for calls that count so many lines. -/
def callRule (lloc : Count) : Rule :=
  { lloc, operators := [Estree.callToken], dependency := some .call }

/-- The lines of a call that counts one unless it is a statement. -/
def unlessStatement : Count := .choose Estree.isStatement 0 1

/-- The rules for Babel trees where an optional call counts a line wherever it stands. -/
def lined : Dialect :=
  dialect.extend "babel" [("OptionalCallExpression", callRule (.fixed 1))]

/-- Whether an optional call is a statement. -/
def isStatementCall (p : Placed) : Bool :=
  p.node.kindIn ["OptionalCallExpression"] && p.parent.kindIn ["ExpressionStatement"]

/-- The optional calls that are statements, as a traversal visits them. -/
def statementCalls (s : Settings) (root : Document) : List Occurrence :=
  (dialect.journal s root).visited.filter fun o => isStatementCall o.place

theorem isStatementCall_of_kind (h : p.node.kind? = some "OptionalCallExpression") :
    isStatementCall p = p.parent.kindIn ["ExpressionStatement"] := by
  rw [isStatementCall, kindIn, h]
  rfl

theorem read_unlessStatement (s : Settings) (p : Placed) :
    unlessStatement.read s p = .ok (if p.parent.kindIn ["ExpressionStatement"] then 0 else 1) :=
  rfl

/-- Both sets of rules read the same at a call but for its line, which the call is only sure to
have where it is no statement. -/
theorem read_callRule (s : Settings) (p : Placed) :
    Agree (fun c c' => c' = { c with lloc := 1 } ∧
        c.lloc = if p.parent.kindIn ["ExpressionStatement"] then 0 else 1)
      ((callRule unlessStatement).read s p) ((callRule (.fixed 1)).read s p) := by
  have hlines : Agree (fun n n' => n = (if p.parent.kindIn ["ExpressionStatement"] then 0 else 1) ∧
      n' = 1) (unlessStatement.read s p) ((Count.fixed 1).read s p) := by
    rw [read_unlessStatement]
    exact .ok ⟨rfl, rfl⟩
  unfold Rule.read callRule
  refine hlines.bind fun n n' hn => ?_
  obtain ⟨rfl, rfl⟩ := hn
  -- From here on both read the same parts, one after the other.
  refine Agree.bind_same _ fun cyclomatic => ?_
  refine Agree.bind_same _ fun operators => ?_
  refine Agree.bind_same _ fun operands => ?_
  refine Agree.bind_same _ fun dependency => ?_
  refine Agree.bind_same _ fun ignored => ?_
  exact .ok ⟨rfl, rfl⟩

/-- A call that is no statement reads the same. -/
theorem read_callRule_eq (h : p.parent.kindIn ["ExpressionStatement"] = false) :
    (callRule unlessStatement).read s p = (callRule (.fixed 1)).read s p := by
  refine Agree.eq ((read_callRule s p).imp fun c c' hcc => ?_)
  rw [h, if_neg Bool.false_ne_true] at hcc
  rw [hcc.1, ← hcc.2]

/-- An optional call has the rule with a line. -/
theorem rule?_lined_call : lined.rule? "OptionalCallExpression" = some (callRule (.fixed 1)) := by
  rw [lined, Dialect.rule?_extend]
  rfl

/-- All other kinds keep their rules. -/
theorem rule?_lined_of_ne {kind : String} (h : kind ≠ "OptionalCallExpression") :
    lined.rule? kind = dialect.rule? kind := by
  refine Dialect.rule?_extend_of_not fun entry hentry => ?_
  rw [List.mem_singleton.mp hentry]
  exact h.symm

/-- The two sets of rules differ for optional calls only. -/
theorem ruleFor_lined (node : Document) :
    node.kind? = some "OptionalCallExpression" ∧
      dialect.ruleFor node = some (callRule unlessStatement) ∧
      lined.ruleFor node = some (callRule (.fixed 1)) ∨
    node.kind? ≠ some "OptionalCallExpression" ∧ lined.ruleFor node = dialect.ruleFor node := by
  by_cases hcall : node.kind? = some "OptionalCallExpression"
  · exact .inl ⟨hcall, ruleFor_eq hcall (rule?_own rfl), ruleFor_eq hcall rule?_lined_call⟩
  · refine .inr ⟨hcall, ?_⟩
    unfold Dialect.ruleFor
    cases hkind : node.kind? with
    | none => simp only [Option.bind_none]
    | some kind =>
      rw [Option.bind_some, Option.bind_some]
      exact rule?_lined_of_ne fun hname => hcall (by rw [hkind, hname])

/-! ### The same visits -/

/-- Both sets of rules pass over the same keys. -/
theorem ignored?_lined (s : Settings) (p : Placed) : lined.ignored? s p = dialect.ignored? s p := by
  unfold Dialect.ignored?
  rcases ruleFor_lined p.node with ⟨-, hbabel, hlined⟩ | ⟨-, hsame⟩
  · simp only [hbabel, hlined]
    -- Whether the call can be read does not depend on its lines.
    have hread := read_callRule s p
    generalize (callRule unlessStatement).read s p = x at hread
    generalize (callRule (.fixed 1)).read s p = y at hread
    cases hread with
    | ok hcc => rw [hcc.1]; rfl
    | error fault => rfl
  · rw [hsame]

/-- Both sets of rules lead to the same errands. -/
theorem next_lined (s : Settings) (e : Errand) : e.next lined s = e.next dialect s := by
  cases e with
  | visit o =>
    simp only [Errand.next, ignored?_lined]
    rcases ruleFor_lined o.place.node with ⟨-, hbabel, hlined⟩ | ⟨-, hsame⟩
    · -- A call opens no scope, so its rule does not matter for what is below.
      rw [hbabel, hlined]
      rfl
    · rw [hsame]
  | openScope o rule form => simp only [Errand.next]
  | closeScope o form => simp only [Errand.next]

theorem script_lined (s : Settings) (es : List Errand) :
    Errand.script lined s es = Errand.script dialect s es :=
  Errand.script_congr (next_lined s) es

theorem typedRoot_lined (root : Document) : lined.typedRoot root = dialect.typedRoot root := by
  unfold Dialect.typedRoot
  rfl

/-- Traversals by both sets of rules that come to their ends carry out the same errands. -/
theorem errands_lined {v u : Walk} (hv : dialect.walk s root = .ok v)
    (hu : lined.walk s root = .ok u) :
    (lined.journal s root).errands = (dialect.journal s root).errands := by
  rw [(Dialect.performAll_of_walk hv).1, (Dialect.performAll_of_walk hu).1, script_lined]
  simp only [Dialect.top, typedRoot_lined]

/-- The nodes whose scopes steps lead into are the same. -/
theorem enclosing_lined (form : ScopeForm) (trail : List Descent) :
    lined.enclosing form trail = dialect.enclosing form trail := by
  have hform : ∀ step, lined.formOf step = dialect.formOf step := by
    intro step
    unfold Dialect.formOf
    rcases ruleFor_lined step.origin.node with ⟨-, hbabel, hlined⟩ | ⟨-, hsame⟩
    · rw [hbabel, hlined]
      rfl
    · rw [hsame]
  induction trail with
  | nil => rw [Dialect.enclosing, Dialect.enclosing]
  | cons step above ih => rw [Dialect.enclosing, Dialect.enclosing, hform, ih]

theorem ownedBy_lined (form : ScopeForm) (o owner : Occurrence) :
    o.ownedBy lined form owner = o.ownedBy dialect form owner := by
  simp only [Occurrence.ownedBy, Occurrence.owner, Occurrence.nest, enclosing_lined]

/-! ### One line for each -/

/-- Where a node can be read, the lines differ by one if it is an optional call and a
statement. -/
theorem lloc_lined (h : (dialect.ignored? s p).isSome) :
    (lined.contribution s p).lloc =
      (dialect.contribution s p).lloc + if isStatementCall p then 1 else 0 := by
  rcases ruleFor_lined p.node with ⟨hkind, hbabel, hlined⟩ | ⟨hkind, hsame⟩
  · have hread := read_callRule s p
    simp only [Dialect.ignored?, hbabel, Option.isSome_map] at h
    simp only [Dialect.contribution, hbabel, hlined, isStatementCall_of_kind hkind]
    generalize (callRule unlessStatement).read s p = x at hread h
    generalize (callRule (.fixed 1)).read s p = y at hread
    cases hread with
    | @ok c c' hcc =>
      show c'.lloc = c.lloc + _
      rw [hcc.1, hcc.2]
      cases p.parent.kindIn ["ExpressionStatement"] <;> rfl
    | error fault => cases h
  · have hcall : isStatementCall p = false := by
      rw [isStatementCall, Bool.and_eq_false_iff]
      refine .inl (Bool.eq_false_iff.mpr fun hin => hkind ?_)
      exact kind?_of_kindIn hin
    simp only [Dialect.contribution, hsame, hcall]
    simp

/-- Some nodes count one line more for each of them that is an optional call and a statement. -/
theorem sum_lloc_lined {vs : List Occurrence}
    (h : ∀ o ∈ vs, (dialect.ignored? s o.place).isSome) :
    (vs.map fun o => (lined.contribution s o.place).lloc).sum =
      (vs.map fun o => (dialect.contribution s o.place).lloc).sum +
        (vs.filter fun o => isStatementCall o.place).length := by
  induction vs with
  | nil => rfl
  | cons o rest ih =>
    rw [List.forall_mem_cons] at h
    rw [List.map_cons, List.sum_cons, List.map_cons, List.sum_cons, ih h.2, lloc_lined h.1,
      List.filter_cons]
    cases isStatementCall o.place with
    | true =>
      rw [if_pos rfl, if_pos rfl, List.length_cons]
      omega
    | false =>
      rw [if_neg Bool.false_ne_true, if_neg Bool.false_ne_true]
      omega

/-- The module counts one line more for each optional call that is a statement, and so does a
function for each that it owns. -/
theorem logical_lined {v u : Walk} (hv : dialect.walk s root = .ok v)
    (hu : lined.walk s root = .ok u) :
    u.tree.module.logical = v.tree.module.logical + (statementCalls s root).length ∧
    ∀ (k : Nat) (o : Occurrence), ((dialect.journal s root).opened .function)[k]? = some o →
      ∃ f g, v.tree.functions[k]? = some f ∧ u.tree.functions[k]? = some g ∧
        g.logical = f.logical +
          ((statementCalls s root).filter (·.ownedBy dialect .function o)).length := by
  have hbabel := Dialect.attributesFunctions_of_walk hv
  have hlined := Dialect.attributesFunctions_of_walk hu
  rw [errands_lined hv hu] at hlined
  have hreadable : ∀ o ∈ Errand.visited (dialect.journal s root).errands,
      (dialect.ignored? s o.place).isSome := fun o ho => Dialect.ignored?_of_visited hv ho
  refine ⟨?_, fun k o hk => ?_⟩
  · rw [hlined.module.logical, hbabel.module.logical, sum_lloc_lined hreadable]
    rfl
  · obtain ⟨f, hf, hfbelongs⟩ := hbabel.functions k o hk
    obtain ⟨g, hg, hgbelongs⟩ := hlined.functions k o hk
    refine ⟨f, g, hf, hg, ?_⟩
    have howned : ∀ v : Occurrence, v.ownedBy lined .function o = v.ownedBy dialect .function o :=
      fun v => ownedBy_lined .function v o
    rw [hgbelongs.collects.logical, hfbelongs.collects.logical]
    simp only [howned]
    rw [sum_lloc_lined fun v hvisited => hreadable v (List.mem_of_mem_filter hvisited),
      List.filter_comm]
    rfl

/-! ### Everything else -/

/-- A tree yields the same by both sets of rules, but for more lines. -/
theorem like_harvest_lined (s : Settings) (lines : Lines Int) (p : Placed) :
    Agree (Yield.Like ScopeCounts.MoreLines) (dialect.harvest s lines p)
      (lined.harvest s lines p) := by
  have hR := ScopeCounts.compatible_moreLines
  induction hsize : p.node.size using Nat.strongRecOn generalizing p lines with
  | ind size ih =>
    have hbelow : ∀ lines ignored, ∀ c ∈ p.node.children ignored,
        Agree (Yield.Like ScopeCounts.MoreLines) (dialect.harvest s lines (c.placed p.node))
          (lined.harvest s lines (c.placed p.node)) :=
      fun lines ignored c hc => ih _ (hsize ▸ size_lt_of_mem_children hc) lines _ rfl
    have hknown : ∀ {rule rule' : Rule}, dialect.ruleFor p.node = some rule →
        lined.ruleFor p.node = some rule' → rule'.opens = rule.opens →
        rule'.scopeKeys = rule.scopeKeys →
        Agree (Contribution.Like ScopeCounts.MoreLines) (rule.read s p) (rule'.read s p) →
        Agree (Yield.Like ScopeCounts.MoreLines) (dialect.harvest s lines p)
          (lined.harvest s lines p) := by
      intro rule rule' hrule hrule' hopens hkeys hread
      exact Dialect.like_harvest hR hrule hrule' hopens hkeys hread rfl rfl id (fun _ => rfl)
        (fun _ => (List.map_id _).symm) hbelow
    rcases ruleFor_lined p.node with ⟨-, hbabel, hlined⟩ | ⟨-, hsame⟩
    · refine hknown hbabel hlined rfl rfl ?_
      refine (read_callRule s p).imp fun c c' hcc => ?_
      obtain ⟨rfl, hlloc⟩ := hcc
      refine ⟨?_, rfl, rfl⟩
      -- The call has its line already, or it gets one.
      cases hparent : p.parent.kindIn ["ExpressionStatement"] with
      | true => exact ⟨1, by simp_all [Gain.ofContribution, Gain.counts]⟩
      | false => exact ⟨0, by simp_all [Gain.ofContribution, Gain.counts]⟩
    · cases hrule : dialect.ruleFor p.node with
      | none =>
        refine Dialect.like_harvest_unknown hR hrule (hsame.trans hrule) ?_ (hbelow lines [])
        unfold Yield.ofUnknown Walk.unknownKind
        rfl
      | some rule =>
        refine hknown hrule (hsame.trans hrule) rfl rfl ((Agree.refl _).imp fun c c' hcc => ?_)
        subst hcc
        exact ⟨hR.refl _, rfl, rfl⟩

/-- Where an errand is no visit of an optional call that is a statement, both sets of rules do the
same. -/
theorem perform_lined {e : Errand} (h : ∀ o ∈ e.visited?, isStatementCall o.place = false)
    (w : Walk) : w.perform lined s e.task = w.perform dialect s e.task := by
  cases e with
  | visit o =>
    have hstatement : isStatementCall o.place = false := h o rfl
    simp only [Errand.task, Walk.perform]
    rcases ruleFor_lined o.place.node with ⟨hkind, hbabel, hlined⟩ | ⟨-, hsame⟩
    · rw [isStatementCall_of_kind hkind] at hstatement
      rw [hbabel, hlined]
      simp only [read_callRule_eq hstatement]
    · rw [hsame]
      unfold Walk.meetUnknown Walk.unknownKind
      rfl
  | openScope o rule form => simp only [Errand.task, Walk.perform]
  | closeScope o form => simp only [Errand.task, Walk.perform]

theorem performAll_lined {es : List Errand}
    (h : ∀ o ∈ Errand.visited es, isStatementCall o.place = false) (w : Walk) :
    w.performAll lined s es = w.performAll dialect s es := by
  unfold Walk.performAll
  induction es generalizing w with
  | nil => rw [List.foldlM_nil, List.foldlM_nil]
  | cons e rest ih =>
    have hrest : ∀ o ∈ Errand.visited rest, isStatementCall o.place = false := by
      intro o ho
      rw [Errand.mem_visited] at ho
      exact h o (Errand.mem_visited.mpr (List.mem_cons_of_mem e ho))
    have hfirst : ∀ o ∈ e.visited?, isStatementCall o.place = false := by
      intro o ho
      obtain rfl := Errand.visited?_eq_some.mp ho
      exact h o (Errand.mem_visited.mpr List.mem_cons_self)
    rw [List.foldlM_cons, List.foldlM_cons, perform_lined hfirst]
    exact bind_congr fun w => ih hrest w

/-- Without optional calls that are statements both sets of rules end with the same walk. -/
theorem eq_of_statementCalls_eq_nil {v u : Walk} (hv : dialect.walk s root = .ok v)
    (hu : lined.walk s root = .ok u) (hnone : statementCalls s root = []) : u = v := by
  obtain ⟨lines, usable⟩ := Dialect.exists_lines_of_walk hv
  have hbabel := Dialect.performAll_of_lines usable hv
  have hlined := Dialect.performAll_of_lines usable hu
  have hno : ∀ o ∈ Errand.visited (dialect.journal s root).errands,
      isStatementCall o.place = false := by
    intro o ho
    simpa using List.filter_eq_nil_iff.mp hnone o ho
  rw [errands_lined hv hu, performAll_lined hno, hbabel] at hlined
  exact (Except.ok.inj hlined).symm

/-- How the walks by both sets of rules differ: the module counts one line more for each optional
call that is a statement, and so does a function for each that it owns. Everything else is the
same, and without such calls so are the lines. -/
theorem walks_lined (s : Settings) (root : Document) :
    Agree (fun v u => Walk.CountsAs ScopeCounts.MoreLines v u ∧
      u.tree.module.logical = v.tree.module.logical + (statementCalls s root).length ∧
      (∀ (k : Nat) (o : Occurrence), ((dialect.journal s root).opened .function)[k]? = some o →
        ∃ f g, v.tree.functions[k]? = some f ∧ u.tree.functions[k]? = some g ∧
          g.logical = f.logical +
            ((statementCalls s root).filter (·.ownedBy dialect .function o)).length) ∧
      (statementCalls s root = [] → u = v))
    (dialect.walk s root) (lined.walk s root) := by
  have hwalks : Agree (Walk.CountsAs ScopeCounts.MoreLines) (dialect.walk s root)
      (lined.walk s root) := by
    refine Dialect.walks_count_as ScopeCounts.compatible_moreLines rfl fun lines _ => ?_
    rw [typedRoot_lined]
    exact like_harvest_lined s lines _
  refine hwalks.imp_ok fun v u hv hu hcounts => ?_
  obtain ⟨hmodule, hfunctions⟩ := logical_lined hv hu
  exact ⟨hcounts, hmodule, hfunctions, eq_of_statementCalls_eq_nil hv hu⟩

end Babel

end CodeMetrics
