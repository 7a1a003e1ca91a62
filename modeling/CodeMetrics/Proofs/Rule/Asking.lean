import CodeMetrics.Dialect.Extension
import CodeMetrics.Proofs.Dialect.Table
import CodeMetrics.Proofs.Result
import CodeMetrics.Traversal

/-!
# `CodeMetrics.Proofs.Rule.Asking`: what a rule asks of the settings and of the parent

A rule reads the node it stands for. Besides, its conditions ask flags of the settings, and they
ask for the kind of the parent. Nothing else matters: `Unnoticed` says that a change of the
settings and of the place leaves the node, the kind of the parent and some flags as they are, and
what asks no other flags reads the same before and after.

`Rule.agree_read` is the statement for a whole rule. It keeps the two counts apart from the rest
of what a rule reads, because settings are often compared that change a count and nothing else.
The settings also enter through dependencies, which are compared with `Rule.dependencyAt_congr`
and `Dependency.resolved_congr`.

`Dialect.flags` are the flags that some rule of a dialect asks. Rules that are given as documents
ask none (`flags_allOfDocument`), so an extension by such rules asks what the dialect asked before
(`mem_flags_extend`).
-/

set_option autoImplicit false

namespace CodeMetrics

/-! ### Flags -/

/-- The flags that a condition asks. -/
def Condition.flags : Condition → List Flag
  | .flag f => [f]
  | .not c => c.flags
  | .and a b | .or a b => a.flags ++ b.flags
  | _ => []

/-- The flags that a number depends on. -/
def Count.flags : Count → List Flag
  | .choose c _ _ => c.flags
  | .fixed _ | .given _ => []

/-- The flags that a token depends on. -/
def Token.flags : Token → List Flag
  | .choose c yes no => c.flags ++ (yes.flags ++ no.flags)
  | _ => []

/-- The flags that decide which keys are passed over. -/
def Skip.flags : Skip → List Flag
  | .when c _ => c.flags
  | .given _ => []

namespace Rule

/-- The flags that decide which tokens a rule reads and which keys it passes over. -/
def tokenFlags (r : Rule) : List Flag :=
  r.operators.flatMap Token.flags ++ (r.operands.flatMap Token.flags ++ r.skip.flags)

/-- The flags that a rule asks. -/
def flags (r : Rule) : List Flag :=
  r.lloc.flags ++ (r.cyclomatic.flags ++ r.tokenFlags)

/-- The dependency that a rule finds at a node. -/
def dependencyAt (r : Rule) (s : Settings) (node : Document) :
    Except Fault (Option (Dependency Int)) :=
  match r.dependency with
  | some form => form.read s node
  | none => pure none

end Rule

/-! ### What goes unnoticed -/

/-- A change from the settings `s` and the place `p` to `t` and `q` that nothing notices which
asks only the flags `asked`. -/
structure Unnoticed (asked : List Flag) (s : Settings) (p : Placed) (t : Settings) (q : Placed) :
    Prop where
  flags : ∀ f ∈ asked, t.on f = s.on f
  node : q.node = p.node
  parent : q.parent.kind? = p.parent.kind?

namespace Unnoticed

variable {asked fewer more : List Flag} {s t : Settings} {p q : Placed}

/-- What asks fewer flags notices no more. -/
theorem mono (h : Unnoticed asked s p t q) (hsub : fewer ⊆ asked) : Unnoticed fewer s p t q where
  flags f hf := h.flags f (hsub hf)
  node := h.node
  parent := h.parent

theorem left (h : Unnoticed (asked ++ more) s p t q) : Unnoticed asked s p t q :=
  h.mono (List.subset_append_left asked more)

theorem right (h : Unnoticed (asked ++ more) s p t q) : Unnoticed more s p t q :=
  h.mono (List.subset_append_right asked more)

/-- A condition is answered in the same way. -/
theorem holds_eq {c : Condition} (h : Unnoticed c.flags s p t q) : c.holds t q = c.holds s p := by
  induction c with
  | always => rfl
  | truthy key => rw [Condition.holds, Condition.holds, h.node]
  | present key => rw [Condition.holds, Condition.holds, h.node]
  | isObject key => rw [Condition.holds, Condition.holds, h.node]
  | oneOf key texts => rw [Condition.holds, Condition.holds, h.node]
  | childKind key kind => rw [Condition.holds, Condition.holds, h.node]
  | several key => rw [Condition.holds, Condition.holds, h.node]
  | under kinds =>
    rw [Condition.holds, Condition.holds, Document.kindIn, Document.kindIn, h.parent]
  | flag f => rw [Condition.holds, Condition.holds, h.flags f List.mem_cons_self]
  | not c ih => rw [Condition.holds, Condition.holds, ih h]
  | and a b iha ihb => rw [Condition.holds, Condition.holds, iha h.left, ihb h.right]
  | or a b iha ihb => rw [Condition.holds, Condition.holds, iha h.left, ihb h.right]

/-- A number is the same. -/
theorem count_eq {n : Count} (h : Unnoticed n.flags s p t q) : n.read t q = n.read s p := by
  cases n with
  | fixed n => rfl
  | given value => rfl
  | choose c yes no =>
    have hc : Unnoticed c.flags s p t q := h
    rw [Count.read, Count.read, hc.holds_eq]

/-- A token stands for the same identifiers. -/
theorem token_eq {token : Token} (h : Unnoticed token.flags s p t q) :
    token.read t q = token.read s p := by
  induction token with
  | nothing => rfl
  | text text => rfl
  | given value => rfl
  | field key => rw [Token.read, Token.read, h.node]
  | literal key => rw [Token.read, Token.read, h.node]
  | composed pieces => rw [Token.read, Token.read, h.node]
  | inner key name => rw [Token.read, Token.read, h.node]
  | choose c yes no ihyes ihno =>
    have hc : Unnoticed c.flags s p t q := h.left
    rw [Token.read, Token.read, hc.holds_eq, ihyes h.right.left, ihno h.right.right]

/-- Several tokens stand for the same identifiers. -/
theorem tokens_eq {tokens : List Token} (h : Unnoticed (tokens.flatMap Token.flags) s p t q) :
    Token.readAll t q tokens = Token.readAll s p tokens := by
  induction tokens with
  | nil => rfl
  | cons token rest ih =>
    rw [List.flatMap_cons] at h
    rw [Token.readAll, Token.readAll, h.left.token_eq, ih h.right]

/-- The same keys are passed over. -/
theorem skip_eq {skip : Skip} (h : Unnoticed skip.flags s p t q) :
    skip.read t q = skip.read s p := by
  cases skip with
  | given value => rfl
  | when c keys =>
    have hc : Unnoticed c.flags s p t q := h
    rw [Skip.read, Skip.read, hc.holds_eq]

/-- Whether a rule lacks keys is a question about the node. -/
theorem lacksKeys_eq (h : Unnoticed asked s p t q) (r : Rule) (ignored : List String) :
    r.lacksKeys q ignored = r.lacksKeys p ignored := by
  rw [Rule.lacksKeys, Rule.lacksKeys, h.node]

end Unnoticed

/-- Settings that differ at most in some flags. -/
structure Settings.DifferIn (flags : List Flag) (s t : Settings) : Prop where
  on : ∀ f, f ∉ flags → t.on f = s.on f
  requireName : t.requireName = s.requireName
  resolver : t.resolver = s.resolver

/-- What asks none of the flags does not notice that they differ. -/
theorem Settings.DifferIn.unnoticed {flags asked : List Flag} {s t : Settings}
    (h : DifferIn flags s t) (hasked : ∀ f ∈ asked, f ∉ flags) (p : Placed) :
    Unnoticed asked s p t p where
  flags f hf := h.on f (hasked f hf)
  node := rfl
  parent := rfl

/-! ### Whole rules -/

namespace Rule

variable {s t : Settings} {p q : Placed} {r : Rule}

/-- The parts that a rule reads, in order. -/
theorem read_parts (r : Rule) (s : Settings) (p : Placed) :
    r.read s p = (do
      let lloc ← r.lloc.read s p
      let cyclomatic ← r.cyclomatic.read s p
      let operators ← Token.readAll s p r.operators
      let operands ← Token.readAll s p r.operands
      let dependency ← r.dependencyAt s p.node
      let ignored ← r.skip.read s p
      if r.lacksKeys p ignored then throw .unusableKeys
      return ({ lloc, cyclomatic, operators, operands, dependency, ignored } : Contribution)) := by
  unfold read dependencyAt
  cases r.dependency <;> rfl

/-- What a rule reads where nothing changes that its tokens and keys depend on: it may be other
counts, but the rest is the same. If a part cannot be read, it is the same part. -/
theorem agree_read {L C : Int → Int → Prop} (h : Unnoticed r.tokenFlags s p t q)
    (hlloc : Agree L (r.lloc.read s p) (r.lloc.read t q))
    (hcyclomatic : Agree C (r.cyclomatic.read s p) (r.cyclomatic.read t q))
    (hdependency : r.dependencyAt t p.node = r.dependencyAt s p.node) :
    Agree (fun c c' => L c.lloc c'.lloc ∧ C c.cyclomatic c'.cyclomatic ∧
        c' = { c with lloc := c'.lloc, cyclomatic := c'.cyclomatic })
      (r.read s p) (r.read t q) := by
  rw [read_parts r s, read_parts r t, h.left.tokens_eq, h.right.left.tokens_eq,
    h.right.right.skip_eq, h.node, hdependency]
  simp only [h.lacksKeys_eq]
  refine hlloc.bind fun lloc lloc' hl => ?_
  refine hcyclomatic.bind fun cyclomatic cyclomatic' hc => ?_
  -- From here on both read the same parts, one after the other.
  refine Agree.bind_same _ fun operators => ?_
  refine Agree.bind_same _ fun operands => ?_
  refine Agree.bind_same _ fun dependency => ?_
  refine Agree.bind_same _ fun ignored => ?_
  cases r.lacksKeys p ignored with
  | true => exact .error _
  | false => exact .ok ⟨hl, hc, rfl⟩

/-- A rule reads the same where nothing changes that it asks. -/
theorem read_eq (h : Unnoticed r.flags s p t q)
    (hdependency : r.dependencyAt t p.node = r.dependencyAt s p.node) :
    r.read t q = r.read s p := by
  have hlloc : Agree Eq (r.lloc.read s p) (r.lloc.read t q) := by
    rw [h.left.count_eq]
    exact Agree.refl _
  have hcyclomatic : Agree Eq (r.cyclomatic.read s p) (r.cyclomatic.read t q) := by
    rw [h.right.left.count_eq]
    exact Agree.refl _
  refine (Agree.eq ((agree_read h.right.right hlloc hcyclomatic hdependency).imp ?_)).symm
  rintro c c' ⟨hl, hc, heq⟩
  rw [heq, ← hl, ← hc]

/-- The parts of what a rule reads, where it can be read. -/
structure Reads (r : Rule) (s : Settings) (p : Placed) (c : Contribution) : Prop where
  lloc : r.lloc.read s p = .ok c.lloc
  cyclomatic : r.cyclomatic.read s p = .ok c.cyclomatic
  operators : Token.readAll s p r.operators = .ok c.operators
  operands : Token.readAll s p r.operands = .ok c.operands
  dependency : r.dependencyAt s p.node = .ok c.dependency
  ignored : r.skip.read s p = .ok c.ignored

theorem reads_of_read {c : Contribution} (h : r.read s p = .ok c) : r.Reads s p c := by
  rw [read_parts] at h
  obtain ⟨lloc, hlloc, h⟩ := exists_of_bind_eq_ok h
  obtain ⟨cyclomatic, hcyclomatic, h⟩ := exists_of_bind_eq_ok h
  obtain ⟨operators, hoperators, h⟩ := exists_of_bind_eq_ok h
  obtain ⟨operands, hoperands, h⟩ := exists_of_bind_eq_ok h
  obtain ⟨dependency, hdependency, h⟩ := exists_of_bind_eq_ok h
  obtain ⟨ignored, hignored, h⟩ := exists_of_bind_eq_ok h
  cases hlacks : r.lacksKeys p ignored with
  | true =>
    rw [hlacks] at h
    cases h
  | false =>
    rw [hlacks] at h
    cases h
    exact ⟨hlloc, hcyclomatic, hoperators, hoperands, hdependency, hignored⟩

/-- Where nothing changes that a rule asks, it can only find another dependency. -/
theorem Reads.eq_of_unnoticed {c c' : Contribution} (h : r.Reads s p c) (h' : r.Reads t q c')
    (same : Unnoticed r.flags s p t q) : c' = { c with dependency := c'.dependency } := by
  have hlloc := h'.lloc
  have hcyclomatic := h'.cyclomatic
  have hoperators := h'.operators
  have hoperands := h'.operands
  have hignored := h'.ignored
  rw [same.left.count_eq, h.lloc] at hlloc
  rw [same.right.left.count_eq, h.cyclomatic] at hcyclomatic
  rw [same.right.right.left.tokens_eq, h.operators] at hoperators
  rw [same.right.right.right.left.tokens_eq, h.operands] at hoperands
  rw [same.right.right.right.right.skip_eq, h.ignored] at hignored
  rw [Except.ok.inj hlloc, Except.ok.inj hcyclomatic, Except.ok.inj hoperators,
    Except.ok.inj hoperands, Except.ok.inj hignored]

/-- Where calls of the same function are dependencies, a rule finds the same one. -/
theorem dependencyAt_congr (hon : t.on .commonjs = s.on .commonjs)
    (hname : t.requireName = s.requireName) (node : Document) :
    r.dependencyAt t node = r.dependencyAt s node := by
  have hcommonjs : Dependency.commonjs t node = Dependency.commonjs s node := by
    rw [Dependency.commonjs, Dependency.commonjs, hon, hname]
  unfold dependencyAt
  cases r.dependency with
  | none => rfl
  | some form =>
    cases form with
    | source => rfl
    | call =>
      show Dependency.ofCall t node = Dependency.ofCall s node
      rw [Dependency.ofCall, Dependency.ofCall, hcommonjs]

end Rule

/-- Settings with the same resolver resolve alike. -/
theorem Dependency.resolved_congr {κ : Type} {s t : Settings} (h : t.resolver = s.resolver) :
    (resolved t : Dependency κ → Dependency κ) = resolved s := by
  funext dependency
  rw [resolved, resolved, h]

/-! ### The flags of a dialect -/

namespace Dialect

/-- The flags that some rule asks. -/
def flags (d : Dialect) : List Flag :=
  d.rules.flatMap fun entry => entry.2.flags

/-- A rule asks no flag that the dialect does not ask. -/
theorem flags_subset_of_ruleFor {d : Dialect} {node : Document} {rule : Rule}
    (h : d.ruleFor node = some rule) : rule.flags ⊆ d.flags := by
  obtain ⟨kind, -, hrule⟩ := Option.bind_eq_some_iff.mp h
  intro f hf
  exact List.mem_flatMap.mpr ⟨(kind, rule), mem_of_find hrule, hf⟩

/-- Rules that are given as documents ask no flags. -/
theorem flags_allOfDocument {rules : Document} {entry : String × Rule}
    (h : entry ∈ Rule.allOfDocument rules) : entry.2.flags = [] := by
  cases rules with
  | object fields =>
    obtain ⟨field, -, rfl⟩ := List.mem_map.mp h
    rfl
  | _ => cases h

/-- A dialect that is extended by such rules asks no other flags than before. -/
theorem mem_flags_extend {d : Dialect} {name : String} {rules : Document}
    {body : Option BodyPlace} {f : Flag}
    (h : f ∈ (d.extend name (Rule.allOfDocument rules) body).flags) : f ∈ d.flags := by
  obtain ⟨entry, hentry, hf⟩ := List.mem_flatMap.mp h
  rcases mem_rules_extend hentry with hold | hnew
  · exact List.mem_flatMap.mpr ⟨entry, hold, hf⟩
  · rw [flags_allOfDocument hnew] at hf
    cases hf

end Dialect

/-- The rules that Babel has of its own ask no flags. -/
theorem Babel.flags_eq_nil : ∀ row ∈ overrides, row.2.flags = [] := by
  decide +kernel

/-- The rules of a standard dialect ask the flags that the rules of the ESTree ask. -/
theorem Registry.flags_subset {name : String} {d : Dialect}
    (standard : (name, d) ∈ standard.entries) : d.flags ⊆ Estree.dialect.flags := by
  intro f hf
  obtain ⟨row, hrow, hf⟩ := List.mem_flatMap.mp hf
  refine forall_rules (P := fun row => row.2.flags ⊆ Estree.dialect.flags) ?_ ?_ _ standard row hrow
    hf
  · exact fun row hrow f hf => List.mem_flatMap.mpr ⟨row, hrow, hf⟩
  · intro row hrow
    rw [Babel.flags_eq_nil row hrow]
    exact List.nil_subset _

end CodeMetrics
