import CodeMetrics.Dialect.Registry
import CodeMetrics.Proofs.Rule.Asking
import Mathlib.Algebra.BigOperators.Group.List.Basic
import Mathlib.Algebra.Ring.Int.Defs
import Mathlib.Data.List.Nodup

/-!
# `CodeMetrics.Proofs.Dialect.CountingFlag`: flags that change a count

Five flags decide whether a node adds one to a count and have no other effect. Four of them are
about paths and one is about logical lines. `Flag.governs` says which nodes a flag is about: the
nodes of some kinds, and of these only the ones that pass a test.

`Registry.agree_read` is the statement that this is all. Where two settings differ in these flags
only, what a rule reads at a node differs by `Flag.lineChange` and `Flag.pathChange`, which look at
the flags that govern the node, and by nothing else.
-/

set_option autoImplicit false

namespace CodeMetrics

/-! ### The nodes that a flag is about -/

namespace Flag

/-- The flags that change the number of paths. -/
def pathFlags : List Flag := [.logicalor, .switchcase, .forin, .trycatch]

/-- The flags that change a count. -/
def countFlags : List Flag := .esmLloc :: pathFlags

/-- The kinds of nodes that a flag which changes a count is about. -/
def kinds : Flag → List String
  | .logicalor => ["AssignmentExpression", "LogicalExpression"]
  | .switchcase => ["SwitchCase"]
  | .forin => ["ForInStatement", "ForOfStatement"]
  | .trycatch => ["CatchClause"]
  | .esmLloc =>
    ["ExportAllDeclaration", "ExportDefaultDeclaration", "ExportNamedDeclaration",
     "ImportDeclaration"]
  | _ => []

/-- Which of the nodes of its kinds a flag is about: of the logical operators only those of an or,
and of the cases of a switch only those with a test and a body. -/
def selects (node : Document) : Flag → Bool
  | .logicalor => (node.get "operator").isOneOf ["||", "??", "||=", "??="]
  | .switchcase => !(node.get "test").isNull && (node.get "consequent").truthy
  | _ => true

/-- Whether a flag decides if the node adds one to a count. -/
def governs (f : Flag) (node : Document) : Bool :=
  node.kindIn f.kinds && f.selects node

/-- One if the flag is on, and zero otherwise. -/
def amount (f : Flag) (s : Settings) : Int :=
  if s.on f then 1 else 0

/-- What a flag changes at a node from the settings `s` to `t`. -/
def change (s t : Settings) (node : Document) (f : Flag) : Int :=
  if f.governs node then f.amount t - f.amount s else 0

/-- What changes in the logical lines of a node. -/
def lineChange (s t : Settings) (node : Document) : Int :=
  esmLloc.change s t node

/-- What changes in the paths of a node. -/
def pathChange (s t : Settings) (node : Document) : Int :=
  (pathFlags.map (change s t node)).sum

/-- A flag does not govern nodes of other kinds. -/
theorem governs_of_not_mem {f : Flag} {node : Document} {kind : String}
    (hkind : node.kind? = some kind) (h : kind ∉ f.kinds) : f.governs node = false := by
  rw [governs, Document.kindIn, hkind]
  simp [h]

/-- A flag changes nothing at a node that it does not govern. -/
theorem change_eq_zero {f : Flag} {node : Document} (h : f.governs node = false)
    (s t : Settings) : f.change s t node = 0 := by
  rw [change, h, if_neg Bool.false_ne_true]

/-- Paths do not change at a node that no flag governs. -/
theorem pathChange_eq_zero {node : Document} (h : ∀ f ∈ pathFlags, f.governs node = false)
    (s t : Settings) : pathChange s t node = 0 := by
  refine List.sum_eq_zero fun n hn => ?_
  obtain ⟨f, hf, rfl⟩ := List.mem_map.mp hn
  exact change_eq_zero (h f hf) s t

/-- What a flag changes at a node of one of its kinds. -/
theorem change_of_mem {f : Flag} {node : Document} {kind : String}
    (hkind : node.kind? = some kind) (h : kind ∈ f.kinds) (s t : Settings) :
    f.change s t node = if f.selects node then f.amount t - f.amount s else 0 := by
  have hgoverns : f.governs node = f.selects node := by
    rw [governs, Document.kindIn, hkind]
    simp [h]
  rw [change, hgoverns]

/-- No kind is the subject of two flags that change paths. -/
theorem not_mem_kinds :
    ∀ f ∈ pathFlags, ∀ g ∈ pathFlags, g ≠ f → ∀ kind ∈ f.kinds, kind ∉ g.kinds := by
  decide

/-- At a node of a kind that a flag is about, paths change by that flag only. -/
theorem pathChange_of_mem {f : Flag} {node : Document} {kind : String} (hf : f ∈ pathFlags)
    (hkind : node.kind? = some kind) (h : kind ∈ f.kinds) (s t : Settings) :
    pathChange s t node = if f.selects node then f.amount t - f.amount s else 0 := by
  have hother : ∀ g, g ≠ f → g ∈ pathFlags → g.change s t node = 0 := fun g hne hg =>
    change_eq_zero (governs_of_not_mem hkind (not_mem_kinds f hf g hg hne kind h)) s t
  have honce : pathFlags.count f = 1 := List.count_eq_one_of_mem (by decide) hf
  rw [pathChange, List.sum_map_eq_nsmul_single f _ hother, honce, one_nsmul, change_of_mem hkind h]

end Flag

/-! ### What the rules ask -/

/-- The rules of the dialects that are there from the start are those of ESTree and those that
Babel has of its own. -/
theorem Registry.rule?_cases {name : String} {d : Dialect}
    (standard : (name, d) ∈ standard.entries) (kind : String) :
    d.rule? kind = Estree.dialect.rule? kind ∨
      ∃ rule, d.rule? kind = some rule ∧ (kind, rule) ∈ Babel.overrides := by
  rcases List.mem_cons.mp standard with heq | hrest
  · cases heq
    exact Or.inl rfl
  · cases List.mem_singleton.mp hrest
    exact Dialect.rule?_extend_cases Estree.dialect "babel" Babel.overrides _ kind

namespace Estree

/-- Which tokens are counted and which keys are passed over does not depend on the flags that
change a count. -/
theorem not_mem_tokenFlags :
    ∀ entry ∈ rules, ∀ f ∈ Flag.countFlags, f ∉ entry.2.tokenFlags := by
  decide +kernel

/-- The logical lines of a node depend on at most one of these flags, and only if it is about nodes
of the kind. -/
theorem mem_kinds_of_mem_lloc :
    ∀ entry ∈ rules, ∀ f ∈ Flag.countFlags, f ∈ entry.2.lloc.flags →
      f = .esmLloc ∧ entry.1 ∈ f.kinds := by
  decide +kernel

/-- The paths of a node depend only on flags that are about nodes of the kind. -/
theorem mem_kinds_of_mem_cyclomatic :
    ∀ entry ∈ rules, ∀ f ∈ Flag.countFlags, f ∈ entry.2.cyclomatic.flags →
      f ∈ Flag.pathFlags ∧ entry.1 ∈ f.kinds := by
  decide +kernel

end Estree

/-- The kinds that the flags are about have rules. -/
theorem Estree.defines_kinds :
    ∀ f ∈ Flag.countFlags, ∀ kind ∈ f.kinds, (dialect.rule? kind).isSome := by
  decide +kernel

/-- The rules that Babel has of its own are for kinds that no flag is about. -/
theorem Babel.not_mem_kinds :
    ∀ row ∈ overrides, ∀ f ∈ Flag.countFlags, row.1 ∉ f.kinds := by
  intro row hrow f hf hmem
  have hdefined : Estree.dialect.defines row.1 = true := Estree.defines_kinds f hf row.1 hmem
  rw [(defines_overrides row hrow).2] at hdefined
  cases hdefined

/-! ### Single counts -/

namespace Condition

variable {s : Settings} {p : Placed} {a b : Condition} {x y : Bool}

/-- Both parts of a condition, where both can be asked. -/
theorem holds_and (ha : a.holds s p = .ok x) (hb : b.holds s p = .ok y) :
    (a.and b).holds s p = .ok (x && y) := by
  rw [holds, ha]
  cases x with
  | true => exact hb
  | false => rfl

/-- Either part of a condition, where both can be asked. -/
theorem holds_or (ha : a.holds s p = .ok x) (hb : b.holds s p = .ok y) :
    (a.or b).holds s p = .ok (x || y) := by
  rw [holds, ha]
  cases x with
  | true => rfl
  | false => exact hb

end Condition

namespace Estree

variable {s t : Settings} {p : Placed} {kind : String} {rule : Rule}

/-- A number that is one if a flag is on, of a flag that is about all nodes of its kinds. -/
theorem agree_flag (f : Flag) (hselects : f.selects p.node = true) :
    Agree (fun n n' => n' = n + if f.selects p.node then f.amount t - f.amount s else 0)
      ((Count.choose (.flag f) 1 0).read s p) ((Count.choose (.flag f) 1 0).read t p) := by
  rw [hselects, if_pos rfl]
  exact .ok (by omega : f.amount t = f.amount s + _)

/-- The paths of a case of a switch. -/
theorem read_casePath (s : Settings) (p : Placed) :
    casePath.read s p =
      .ok (if Flag.switchcase.selects p.node then Flag.switchcase.amount s else 0) := by
  have hholds : (Condition.and (.flag .switchcase)
      (.and (.present "test") (.truthy "consequent"))).holds s p =
        .ok (s.on .switchcase && Flag.switchcase.selects p.node) :=
    Condition.holds_and rfl (Condition.holds_and rfl rfl)
  rw [casePath, Count.read, hholds, Flag.amount]
  cases Flag.switchcase.selects p.node <;> cases s.on .switchcase <;> rfl

/-- The paths of a logical operator. -/
theorem read_logicalPath (s : Settings) (p : Placed) :
    logicalPath.read s p =
      .ok (if (p.node.get "operator").isOneOf ["&&", "&&="] then 1
        else if Flag.logicalor.selects p.node then Flag.logicalor.amount s else 0) := by
  have hholds : (Condition.or (.oneOf "operator" ["&&", "&&="])
      (.and (.oneOf "operator" ["||", "??", "||=", "??="]) (.flag .logicalor))).holds s p =
        .ok ((p.node.get "operator").isOneOf ["&&", "&&="] ||
          (Flag.logicalor.selects p.node && s.on .logicalor)) :=
    Condition.holds_or rfl (Condition.holds_and rfl rfl)
  rw [logicalPath, Count.read, hholds, Flag.amount]
  cases (p.node.get "operator").isOneOf ["&&", "&&="] <;>
    cases Flag.logicalor.selects p.node <;> cases s.on .logicalor <;> rfl

/-- No operator is an and as well as an or. -/
theorem not_selects_of_and {node : Document} (h : (node.get "operator").isOneOf ["&&", "&&="]) :
    Flag.logicalor.selects node = false := by
  rw [Flag.selects]
  cases hoperator : node.get "operator" with
  | string text =>
    rw [hoperator] at h
    rcases List.mem_cons.mp (List.elem_iff.mp h) with rfl | h
    · decide
    · cases List.mem_singleton.mp h
      decide
  | _ => rfl

/-- A part of a rule, read off the table. -/
theorem part_eq {α : Type} {part : Rule → α} {a : α} (hrule : dialect.rule? kind = some rule)
    (h : (dialect.rule? kind).map part = some a) : part rule = a := by
  rw [hrule] at h
  exact Option.some.inj h

/-- The logical lines of a node of ESTree under settings that differ in the flags that change a
count. -/
theorem agree_lloc (h : s.DifferIn Flag.countFlags t) (hkind : p.node.kind? = some kind)
    (hrule : dialect.rule? kind = some rule) :
    Agree (fun n n' => n' = n + Flag.lineChange s t p.node)
      (rule.lloc.read s p) (rule.lloc.read t p) := by
  by_cases hmem : kind ∈ Flag.esmLloc.kinds
  · have hline : rule.lloc = moduleLine := by
      simp only [Flag.kinds, List.mem_cons, List.not_mem_nil, or_false] at hmem
      rcases hmem with rfl | rfl | rfl | rfl <;> exact part_eq hrule rfl
    rw [hline, Flag.lineChange, Flag.change_of_mem hkind hmem]
    exact agree_flag .esmLloc rfl
  · -- The rule asks none of the flags.
    have hasked : ∀ f ∈ rule.lloc.flags, f ∉ Flag.countFlags := by
      intro f hf hcount
      obtain ⟨rfl, hkinds⟩ := mem_kinds_of_mem_lloc _ (Dialect.mem_of_find hrule) f hcount hf
      exact hmem hkinds
    rw [(h.unnoticed hasked p).count_eq, Flag.lineChange,
      Flag.change_eq_zero (Flag.governs_of_not_mem hkind hmem)]
    exact (Agree.refl _).imp fun n n' heq => by omega

/-- The paths of a node of ESTree under settings that differ in the flags that change a count. -/
theorem agree_cyclomatic (h : s.DifferIn Flag.countFlags t) (hkind : p.node.kind? = some kind)
    (hrule : dialect.rule? kind = some rule) :
    Agree (fun n n' => n' = n + Flag.pathChange s t p.node)
      (rule.cyclomatic.read s p) (rule.cyclomatic.read t p) := by
  by_cases hmem : ∃ f ∈ Flag.pathFlags, kind ∈ f.kinds
  · obtain ⟨f, hf, hmem⟩ := hmem
    rw [Flag.pathChange_of_mem hf hkind hmem]
    simp only [Flag.pathFlags, List.mem_cons, List.not_mem_nil, or_false] at hf
    rcases hf with rfl | rfl | rfl | rfl
    · -- A logical operator.
      have hpath : rule.cyclomatic = logicalPath := by
        simp only [Flag.kinds, List.mem_cons, List.not_mem_nil, or_false] at hmem
        rcases hmem with rfl | rfl <;> exact part_eq hrule rfl
      rw [hpath, read_logicalPath, read_logicalPath]
      refine .ok ?_
      -- An and counts under all settings, and is no or.
      by_cases hand : (p.node.get "operator").isOneOf ["&&", "&&="]
      · rw [if_pos hand, if_pos hand, not_selects_of_and hand, if_neg Bool.false_ne_true]
        rfl
      · rw [if_neg hand, if_neg hand]
        split <;> omega
    · -- A case of a switch.
      have hpath : rule.cyclomatic = casePath := by
        cases List.mem_singleton.mp hmem
        exact part_eq hrule rfl
      rw [hpath, read_casePath, read_casePath]
      refine .ok ?_
      split <;> omega
    · -- A loop over keys or items.
      have hpath : rule.cyclomatic = iterationPath := by
        simp only [Flag.kinds, List.mem_cons, List.not_mem_nil, or_false] at hmem
        rcases hmem with rfl | rfl <;> exact part_eq hrule rfl
      rw [hpath]
      exact agree_flag .forin rfl
    · -- A clause that catches.
      have hpath : rule.cyclomatic = .choose (.flag .trycatch) 1 0 := by
        cases List.mem_singleton.mp hmem
        exact part_eq hrule rfl
      rw [hpath]
      exact agree_flag .trycatch rfl
  · -- No flag is about nodes of the kind, and so the rule asks none of them.
    have hasked : ∀ f ∈ rule.cyclomatic.flags, f ∉ Flag.countFlags := by
      intro f hf hcount
      exact hmem ⟨f, mem_kinds_of_mem_cyclomatic _ (Dialect.mem_of_find hrule) f hcount hf⟩
    have hgoverns : ∀ f ∈ Flag.pathFlags, f.governs p.node = false := fun f hf =>
      Flag.governs_of_not_mem hkind fun hkinds => hmem ⟨f, hf, hkinds⟩
    rw [(h.unnoticed hasked p).count_eq, Flag.pathChange_eq_zero hgoverns]
    exact (Agree.refl _).imp fun n n' heq => by omega

end Estree

/-! ### Whole rules -/

/-- Counts that differ by what the flags change at a node, and nothing else that differs. -/
structure Contribution.Recounts (s t : Settings) (node : Document) (c c' : Contribution) :
    Prop where
  lloc : c'.lloc = c.lloc + Flag.lineChange s t node
  cyclomatic : c'.cyclomatic = c.cyclomatic + Flag.pathChange s t node
  rest : c' = { c with lloc := c'.lloc, cyclomatic := c'.cyclomatic }

/-- Where no flag governs the node, nothing differs. -/
theorem Contribution.Recounts.refl {node : Document}
    (h : ∀ f ∈ Flag.countFlags, f.governs node = false) (s t : Settings) (c : Contribution) :
    c.Recounts s t node c where
  lloc := by
    rw [Flag.lineChange, Flag.change_eq_zero (h .esmLloc List.mem_cons_self), Int.add_zero]
  cyclomatic := by
    rw [Flag.pathChange_eq_zero fun f hf => h f (List.mem_cons_of_mem _ hf), Int.add_zero]
  rest := rfl

/-- What a rule of one of the dialects that are there from the start reads under settings that
differ in the flags that change a count. If it cannot be read, it fails in the same way. -/
theorem Registry.agree_read {name : String} {d : Dialect}
    (standard : (name, d) ∈ standard.entries) {s t : Settings} (h : s.DifferIn Flag.countFlags t)
    {p : Placed} {rule : Rule} (hrule : d.ruleFor p.node = some rule) :
    Agree (Contribution.Recounts s t p.node) (rule.read s p) (rule.read t p) := by
  obtain ⟨kind, hkind, hfound⟩ := Option.bind_eq_some_iff.mp hrule
  have hdependency : rule.dependencyAt t p.node = rule.dependencyAt s p.node :=
    Rule.dependencyAt_congr (h.on .commonjs (by decide)) h.requireName p.node
  rcases rule?_cases standard kind with hsame | ⟨other, hother, hoverride⟩
  · rw [hsame] at hfound
    have hasked : ∀ f ∈ rule.tokenFlags, f ∉ Flag.countFlags := fun f hf hcount =>
      Estree.not_mem_tokenFlags _ (Dialect.mem_of_find hfound) f hcount hf
    refine (Rule.agree_read (h.unnoticed hasked p) (Estree.agree_lloc h hkind hfound)
      (Estree.agree_cyclomatic h hkind hfound) hdependency).imp ?_
    rintro c c' ⟨hlloc, hcyclomatic, hrest⟩
    exact ⟨hlloc, hcyclomatic, hrest⟩
  · -- A rule of Babel reads the same, and no flag is about the node.
    cases hfound.symm.trans hother
    have hasked : ∀ f ∈ rule.flags, f ∉ Flag.countFlags := by
      intro f hf
      rw [show rule.flags = [] from Babel.flags_eq_nil _ hoverride] at hf
      cases hf
    have hgoverns : ∀ f ∈ Flag.countFlags, f.governs p.node = false := fun f hf =>
      Flag.governs_of_not_mem hkind (Babel.not_mem_kinds _ hoverride f hf)
    rw [Rule.read_eq (h.unnoticed hasked p) hdependency]
    refine (Agree.refl _).imp ?_
    rintro c _ rfl
    exact .refl hgoverns s t c

/-- No flag governs a node of an unknown kind. -/
theorem Registry.governs_of_unknown {name : String} {d : Dialect}
    (standard : (name, d) ∈ standard.entries) {node : Document} (hrule : d.ruleFor node = none) :
    ∀ f ∈ Flag.countFlags, f.governs node = false := by
  intro f hf
  cases hkind : node.kind? with
  | none => rw [Flag.governs, Document.kindIn, hkind, Bool.false_and]
  | some kind =>
    refine Flag.governs_of_not_mem hkind fun hmem => ?_
    have hdefined := Estree.defines_kinds f hf kind hmem
    rw [Dialect.ruleFor, hkind, Option.bind_some] at hrule
    rcases rule?_cases standard kind with hsame | ⟨rule, hrule', -⟩
    · rw [← hsame, hrule] at hdefined
      cases hdefined
    · cases hrule.symm.trans hrule'

end CodeMetrics
