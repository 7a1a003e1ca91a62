import CodeMetrics.Dialect.Registry
import CodeMetrics.Proofs.Rule.Asking

/-!
# `CodeMetrics.Proofs.Rule.Parent`: parents that make no difference

Some rules ask whether the parent is of one of a few kinds (`Condition.parents`). A rule reads the
same at two places of a node if its conditions are answered alike there (`Rule.read_congr`), so
parents of all other kinds are the same to it.

Programs, files, imports and exports of whole modules are such parents for all rules of the standard
dialects (`Registry.read_of_neutral`). They do not name what stands in them either
(`Placed.bindingName?_of_neutral`).
-/

set_option autoImplicit false

namespace CodeMetrics

/-! ### The conditions of a rule -/

/-- The conditions that a number depends on. -/
def Count.conditions : Count → List Condition
  | .choose c _ _ => [c]
  | .fixed _ | .given _ => []

/-- The conditions that a token depends on. -/
def Token.conditions : Token → List Condition
  | .choose c yes no => c :: (yes.conditions ++ no.conditions)
  | _ => []

/-- The conditions that decide which keys are passed over. -/
def Skip.conditions : Skip → List Condition
  | .when c _ => [c]
  | .given _ => []

/-- The conditions of a rule. -/
def Rule.conditions (r : Rule) : List Condition :=
  r.lloc.conditions ++ (r.cyclomatic.conditions ++ ((r.operators ++ r.operands).flatMap
    Token.conditions ++ r.skip.conditions))

section

variable {s : Settings} {p q : Placed}

theorem Count.read_congr {n : Count} (h : ∀ c ∈ n.conditions, c.holds s q = c.holds s p) :
    n.read s q = n.read s p := by
  cases n with
  | choose c yes no => simp only [read, h c List.mem_cons_self]
  | _ => rfl

theorem Token.read_congr (hnode : q.node = p.node) {token : Token}
    (h : ∀ c ∈ token.conditions, c.holds s q = c.holds s p) : token.read s q = token.read s p := by
  induction token with
  | choose c yes no ihyes ihno =>
    simp only [conditions, List.forall_mem_cons, List.forall_mem_append] at h
    simp only [read, h.1, ihyes h.2.1, ihno h.2.2]
  | _ => simp only [read, hnode]

theorem Token.readAll_congr (hnode : q.node = p.node) {tokens : List Token}
    (h : ∀ c ∈ tokens.flatMap conditions, c.holds s q = c.holds s p) :
    readAll s q tokens = readAll s p tokens := by
  induction tokens with
  | nil => rfl
  | cons token rest ih =>
    simp only [List.flatMap_cons, List.forall_mem_append] at h
    simp only [readAll, read_congr hnode h.1, ih h.2]

theorem Skip.read_congr {skip : Skip} (h : ∀ c ∈ skip.conditions, c.holds s q = c.holds s p) :
    skip.read s q = skip.read s p := by
  cases skip with
  | when c keys => simp only [read, h c List.mem_cons_self]
  | given value => rfl

/-- A rule reads the same at two places of a node where its conditions are answered alike. -/
theorem Rule.read_congr (hnode : q.node = p.node) {r : Rule}
    (h : ∀ c ∈ r.conditions, c.holds s q = c.holds s p) : r.read s q = r.read s p := by
  simp only [conditions, List.flatMap_append, List.forall_mem_append] at h
  obtain ⟨hlloc, hcyclomatic, ⟨hoperators, hoperands⟩, hskip⟩ := h
  have hlacks : ∀ ignored, r.lacksKeys q ignored = r.lacksKeys p ignored := by
    intro ignored
    rw [lacksKeys, lacksKeys, hnode]
  simp only [read_parts, Count.read_congr hlloc, Count.read_congr hcyclomatic,
    Token.readAll_congr hnode hoperators, Token.readAll_congr hnode hoperands,
    Skip.read_congr hskip, hlacks, hnode]

end

/-! ### The kinds of parents that a rule asks for -/

/-- The kinds of parents that a condition asks for. -/
def Condition.parents : Condition → List String
  | .under kinds => kinds
  | .not c => c.parents
  | .and a b | .or a b => a.parents ++ b.parents
  | _ => []

/-- The kinds of nodes that make no difference to what stands in them: a module and a file around
it, and the statements that refer to another module as a whole. -/
def neutralKinds : List String :=
  ["Program", "File", "ImportDeclaration", "ExportAllDeclaration"]

/-- A node of one of some kinds has a kind, which is one of them. -/
theorem Document.kindIn_iff {d : Document} {kinds : List String} :
    d.kindIn kinds ↔ ∃ kind ∈ kinds, d.kind? = some kind := by
  unfold kindIn
  cases d.kind? <;> simp

/-- A node of a neutral kind is of none of the other kinds. -/
theorem Document.kindIn_of_neutral {d : Document} (h : d.kindIn neutralKinds) {kinds : List String}
    (hkinds : ∀ kind ∈ kinds, kind ∉ neutralKinds) : d.kindIn kinds = false := by
  obtain ⟨kind, hneutral, hkind⟩ := kindIn_iff.mp h
  rw [Bool.eq_false_iff]
  intro hother
  obtain ⟨other, hmem, hsame⟩ := kindIn_iff.mp hother
  cases hkind.symm.trans hsame
  exact hkinds kind hmem hneutral

/-- A condition is answered alike under neutral parents, if it asks for other kinds only. -/
theorem Condition.holds_of_neutral {s : Settings} {p q : Placed} (hnode : q.node = p.node)
    (hp : p.parent.kindIn neutralKinds) (hq : q.parent.kindIn neutralKinds) {c : Condition}
    (h : ∀ kind ∈ c.parents, kind ∉ neutralKinds) : c.holds s q = c.holds s p := by
  induction c with
  | under kinds =>
    -- Neither of the two parents is of one of these kinds.
    have hkinds : ∀ kind ∈ kinds, kind ∉ neutralKinds := h
    rw [holds, holds, Document.kindIn_of_neutral hp hkinds, Document.kindIn_of_neutral hq hkinds]
  | not c ih => rw [holds, holds, ih h]
  | and a b iha ihb =>
    rw [parents, List.forall_mem_append] at h
    rw [holds, holds, iha h.1, ihb h.2]
  | or a b iha ihb =>
    rw [parents, List.forall_mem_append] at h
    rw [holds, holds, iha h.1, ihb h.2]
  | _ =>
    -- The other conditions look at the node alone, or at the settings.
    simp only [holds, hnode]

/-- No rule of the standard dialects asks for a neutral parent. -/
theorem Registry.parents_not_neutral :
    ∀ entry ∈ standard.entries, ∀ rule ∈ entry.2.rules, ∀ c ∈ rule.2.conditions,
      ∀ kind ∈ c.parents, kind ∉ neutralKinds :=
  forall_rules (by decide +kernel) (by decide +kernel)

/-- A rule of a standard dialect reads the same under all neutral parents. -/
theorem Registry.read_of_neutral {name : String} {d : Dialect}
    (standard : (name, d) ∈ standard.entries) {s : Settings} {p q : Placed}
    (hnode : q.node = p.node) (hp : p.parent.kindIn neutralKinds)
    (hq : q.parent.kindIn neutralKinds) {rule : Rule} (hrule : d.ruleFor p.node = some rule) :
    rule.read s q = rule.read s p := by
  obtain ⟨kind, -, hfound⟩ := Option.bind_eq_some_iff.mp hrule
  apply Rule.read_congr hnode
  intro c hc
  apply Condition.holds_of_neutral hnode hp hq
  exact parents_not_neutral _ standard _ (Dialect.mem_of_find hfound) c hc

/-- A neutral parent is no binding, so it gives no name. -/
theorem Placed.bindingName?_of_neutral {p : Placed} (h : p.parent.kindIn neutralKinds) :
    p.bindingName? = none := by
  obtain ⟨kind, hneutral, hkind⟩ := Document.kindIn_iff.mp h
  have hother : ∀ kind ∈ neutralKinds, kind ≠ "VariableDeclarator" ∧
      kind ≠ "AssignmentExpression" ∧ kind ≠ "AssignmentPattern" ∧
      propertyKinds.contains kind = false := by decide
  obtain ⟨hdeclarator, hassignment, hpattern, hproperty⟩ := hother kind hneutral
  simp only [bindingName?, hkind, hdeclarator, hassignment, hpattern, hproperty,
    Bool.false_eq_true, false_and, if_false]

end CodeMetrics
