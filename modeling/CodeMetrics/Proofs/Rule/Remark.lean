import CodeMetrics.Proofs.Dialect.Table
import CodeMetrics.Proofs.Document.Remark
import CodeMetrics.Proofs.Traversal.Recursion

/-!
# `CodeMetrics.Proofs.Rule.Remark`: rules that overlook remarks

No rule of a built-in dialect asks about a remark (`overlooks_standard`), and neither does the
search for names, for lines or for the paths of dependencies. So the contribution of a node does
not depend on remarks (`Placed.Remarked.read_eq`), and the scope that a node opens has the same
name, the same parameters and the same lines.

Two things stand in the way. A field that is read as text could hold a node, and its text would
show the remarks. A node in the place of a list could be asked for the number of its fields.
`Dialect.legible` rules both out at one place. Of the texts it asks only for those that are read:
a token that is chosen by a condition counts only where the condition chooses it
(`Token.textsRead`).
-/

set_option autoImplicit false

namespace CodeMetrics

/-! ### What is read as text, and what is counted -/

/-- The values that a token reads as text at a place. -/
def Token.textsRead (s : Settings) (p : Placed) : Token → List Document
  | .choose c yes no =>
    match c.holds s p with
    | .ok true => yes.textsRead s p
    | .ok false => no.textsRead s p
    | .error _ => []
  | token => token.texts p.node

/-- The keys of the fields whose elements are counted or taken out. -/
def sequenceKeys : List String := ["arguments", "elements", "quasis"]

/-- Whether a value is a list or null. -/
def Document.isSequence : Document → Bool
  | .list _ | .null => true
  | _ => false

/-- The values that are read as text at a place. -/
def Dialect.textsRead (d : Dialect) (s : Settings) (p : Placed) : List Document :=
  p.node.ownTexts ++ (d.ruleFor p.node).elim [] fun rule =>
    (rule.operators ++ rule.operands).flatMap (·.textsRead s p)

/-- Whether what is read as text at a place is a text, a number, a truth value or null, and what
should be a list is one, or null. -/
def Dialect.legible (d : Dialect) (s : Settings) (p : Placed) : Bool :=
  (d.textsRead s p).all (fun value => !value.isCollection) &&
    sequenceKeys.all fun key => (p.node.get key).isSequence

/-- Whether a test succeeds at a place and at all places below it. -/
def Placed.everywhere (test : Placed → Bool) (p : Placed) : Bool :=
  test p && (p.node.children []).attach.all fun c => everywhere test (c.1.placed p.node)
termination_by p.node.size
decreasing_by exact Document.size_lt_of_mem_children c.2

theorem Placed.everywhere_iff {test : Placed → Bool} {p : Placed} :
    p.everywhere test ↔
      test p ∧ ∀ c ∈ p.node.children [], (c.placed p.node).everywhere test := by
  rw [everywhere, Bool.and_eq_true, List.all_eq_true]
  simp

/-- A document is legible if it is no node, or a node at a place where everything is legible. -/
def Document.Legible (d : Dialect) (s : Settings) (x : Document) : Prop :=
  x.isNode → ∃ p : Placed, p.node = x ∧ p.everywhere (d.legible s)

namespace Document.Legible

variable {d : Dialect} {s : Settings} {x : Document}

/-- Whatever is found below a legible node is legible. -/
theorem of_mem_childrenAt (h : x.Legible d s) (hx : x.isNode) {key : String}
    (hkey : key ∉ nonChildKeys) {c : Child} (hc : c ∈ childrenAt key (x.get key)) :
    c.node.Legible d s := by
  obtain ⟨p, rfl, hp⟩ := h hx
  cases hnode : p.node with
  | object fields =>
    rw [hnode] at hc
    have hchild : c ∈ p.node.children [] := by
      rw [hnode]
      exact mem_children_of_get hkey hc
    exact fun _ => ⟨_, rfl, (Placed.everywhere_iff.mp hp).2 c hchild⟩
  | _ => rw [hnode] at hx; cases hx

theorem get (h : x.Legible d s) (hx : x.isNode) {key : String} (hkey : key ∉ nonChildKeys) :
    (x.get key).Legible d s := by
  intro hnode
  refine h.of_mem_childrenAt hx hkey (c := ⟨key, true, x.get key⟩) ?_ hnode
  cases hvalue : x.get key with
  | object fields =>
    rw [hvalue] at hnode
    rw [childrenAt, if_pos hnode]
    exact List.mem_singleton.mpr rfl
  | _ => rw [hvalue] at hnode; cases hnode

theorem item (h : x.Legible d s) (hx : x.isNode) {key : String} (hkey : key ∉ nonChildKeys)
    {items : List Document} (hitems : x.get key = .list items) {item : Document}
    (hitem : item ∈ items) : item.Legible d s := by
  intro hnode
  refine h.of_mem_childrenAt hx hkey (c := ⟨key, false, item⟩) ?_ hnode
  rw [hitems]
  exact List.mem_map_of_mem (List.mem_filter.mpr ⟨hitem, hnode⟩)

/-- What names and paths read as text is a text, a number, a truth value or null. -/
theorem scalar_of_own (h : x.Legible d s) (hx : x.isNode) {value : Document}
    (hvalue : value ∈ x.ownTexts) : value.isCollection = false := by
  obtain ⟨p, rfl, hp⟩ := h hx
  have htest := (Placed.everywhere_iff.mp hp).1
  rw [Dialect.legible, Bool.and_eq_true, List.all_eq_true] at htest
  simpa using htest.1 value (List.mem_append_left _ hvalue)

/-- What should be a list is one, or null. -/
theorem isSequence (h : x.Legible d s) (hx : x.isNode) {key : String} (hkey : key ∈ sequenceKeys) :
    (x.get key).isSequence := by
  obtain ⟨p, rfl, hp⟩ := h hx
  have htest := (Placed.everywhere_iff.mp hp).1
  rw [Dialect.legible, Bool.and_eq_true, List.all_eq_true, List.all_eq_true] at htest
  exact htest.2 key hkey

theorem isObject_eq_false (h : x.Legible d s) (hx : x.isNode) {key : String}
    (hkey : key ∈ sequenceKeys) : (x.get key).isObject = false := by
  have hsequence := h.isSequence hx hkey
  cases hvalue : x.get key with
  | object fields => rw [hvalue] at hsequence; cases hsequence
  | _ => rfl

/-- The first element of what should be a list is null or one of its items. -/
theorem first (h : x.Legible d s) (hx : x.isNode) {key : String} (hkey : key ∈ sequenceKeys)
    {element : Document} (hfirst : (x.get key).first = .ok element) :
    element = .null ∨ ∃ items, x.get key = .list items ∧ element ∈ items := by
  have hsequence := h.isSequence hx hkey
  cases hvalue : x.get key with
  | list items =>
    rw [hvalue] at hfirst
    cases items with
    | nil =>
      cases hfirst
      exact .inl rfl
    | cons head tail =>
      cases hfirst
      exact .inr ⟨_, rfl, List.mem_cons_self⟩
  | null =>
    rw [hvalue] at hfirst
    cases hfirst
  | _ => rw [hvalue] at hsequence; cases hsequence

end Document.Legible

/-! ### Names -/

namespace Document

theorem isNode_of_kind? {x : Document} {kind : String} (h : x.kind? = some kind) : x.isNode := by
  rw [isNode, h]
  rfl

namespace Remarked

variable {d : Dialect} {s : Settings} {a b : Document}

theorem literalName?_eq (h : a.Remarked b) : b.literalName? = a.literalName? := by
  cases h <;> rfl

/-- Remarks do not change the name of a node. -/
theorem name?_eq (h : a.Remarked b) (legible : a.Legible d s) : b.name? = a.name? := by
  -- A name is put together from the names of nodes below, so the induction is on the size.
  induction hsize : a.size using Nat.strongRecOn generalizing a b with
  | ind size ih =>
    have hpart : ∀ kind, a.kind? = some kind → ∀ key, key ∉ nonChildKeys →
        key ∉ remarkKeys → (b.get key).name? = (a.get key).name? := by
      intro kind hkind key hchild hkey
      exact ih _ (hsize ▸ size_get_lt_of_kind hkind key) (h.get hkey)
        (legible.get (isNode_of_kind? hkind) hchild) rfl
    have hname : a.kind? = some "Identifier" ∨ a.kind? = some "PrivateIdentifier" →
        b.get "name" = a.get "name" := by
      intro hkind
      have hnode : a.isNode := hkind.elim isNode_of_kind? isNode_of_kind?
      refine h.get_eq (by decide) (legible.scalar_of_own hnode ?_)
      rcases hkind with hkind | hkind <;> simp [ownTexts, hkind]
    have hvalue := (h.get (by decide : "value" ∉ remarkKeys)).literalName?_eq
    have hcomputed := (h.get (by decide : "computed" ∉ remarkKeys)).resembles.truthy_eq
    have hobject := (h.get (by decide : "object" ∉ remarkKeys)).kindIn_eq literalKinds
    rw [Document.name?_eq, Document.name?_eq]
    unfold nameFrom
    rw [h.kind?_eq]
    split <;> rename_i hkind
    · rw [hname (.inl hkind)]
    · rw [hname (.inr hkind)]
    · rw [hpart _ hkind "id" (by decide) (by decide)]
    · rfl
    · exact hvalue
    · exact hvalue
    · exact hvalue
    · rw [hcomputed, hobject, hpart _ hkind "object" (by decide) (by decide),
        hpart _ hkind "property" (by decide) (by decide)]
    · rw [hcomputed, hobject, hpart _ hkind "object" (by decide) (by decide),
        hpart _ hkind "property" (by decide) (by decide)]
    · rfl

/-- Remarks do not change the name of a parameter. -/
theorem parameterName_eq (h : a.Remarked b) (legible : a.Legible d s) :
    b.parameterName = a.parameterName := by
  induction hsize : a.size using Nat.strongRecOn generalizing a b with
  | ind size ih =>
    have hpart : ∀ kind, a.kind? = some kind → ∀ key, key ∉ nonChildKeys →
        key ∉ remarkKeys → (b.get key).parameterName = (a.get key).parameterName := by
      intro kind hkind key hchild hkey
      exact ih _ (hsize ▸ size_get_lt_of_kind hkind key) (h.get hkey)
        (legible.get (isNode_of_kind? hkind) hchild) rfl
    rw [Document.parameterName_eq, Document.parameterName_eq]
    unfold parameterNameFrom
    rw [h.kind?_eq]
    -- One case per kind of `parameterNameFrom`, in its order.
    split <;> rename_i hkind
    · have hscalar : (a.get "name").isCollection = false :=
        legible.scalar_of_own (isNode_of_kind? hkind) (by simp [ownTexts, hkind])
      rw [h.field?_eq (by decide) hscalar]
    · exact hpart _ hkind "left" (by decide) (by decide)
    · rw [hpart _ hkind "argument" (by decide) (by decide)]
    · rw [hpart _ hkind "argument" (by decide) (by decide)]
    · rfl
    · rfl
    · exact hpart _ hkind "parameter" (by decide) (by decide)
    · rfl

/-- Remarks do not change the names of the parameters of a node. -/
theorem parameterNames_eq (h : a.Remarked b) (legible : a.Legible d s) (hnode : a.isNode) :
    b.parameters.map parameterName = a.parameters.map parameterName := by
  have hparams := h.get (by decide : "params" ∉ remarkKeys)
  have hlegible : ∀ items, a.get "params" = .list items → ∀ item ∈ items, item.Legible d s :=
    fun items hitems item hitem => legible.item hnode (by decide) hitems hitem
  unfold parameters
  -- The two lists are freed from their nodes for the induction.
  generalize a.get "params" = x, b.get "params" = y at hparams hlegible
  cases hparams with
  | same => rfl
  | node => rfl
  | @list items items' each =>
    have hitems := hlegible items rfl
    clear hlegible
    show items'.map parameterName = items.map parameterName
    induction each with
    | nil => rfl
    | cons hitem hrest ih =>
      rw [List.forall_mem_cons] at hitems
      rw [List.map_cons, List.map_cons, hitem.parameterName_eq hitems.1, ih hitems.2]

/-! ### Dependencies -/

/-- Remarks do not change what a template stands for. -/
theorem templateValue_eq (h : a.Remarked b) (legible : a.Legible d s)
    (hkind : a.kind? = some "TemplateLiteral") : b.templateValue = a.templateValue := by
  have hnode := isNode_of_kind? hkind
  have hquasis := h.get (by decide : "quasis" ∉ remarkKeys)
  refine Document.templateValue_eq (h.get (by decide)).resembles.truthy_eq hquasis.resembles
    (legible.isObject_eq_false hnode (by decide)) (hquasis.first.imp_ok ?_)
  intro part part' hfirst _ hpart
  refine ⟨hpart.resembles, hpart.getIn_eq (by decide) (by decide) ?_⟩
  rcases legible.first hnode (by decide) hfirst with rfl | ⟨parts, hparts, hmem⟩
  · rfl
  · refine legible.scalar_of_own hnode ?_
    simp only [ownTexts, hkind, hparts]
    exact List.mem_map_of_mem hmem

/-- Remarks do not change the text that a node stands for. -/
theorem stringValue_eq (h : a.Remarked b) (legible : a.Legible d s) :
    b.stringValue = a.stringValue := by
  have hvalue := (h.get (by decide : "value" ∉ remarkKeys)).resembles.literalValue_eq
  by_cases hliteral : a.kind? = some "Literal" ∨ a.kind? = some "StringLiteral"
  · rw [stringValue_of_literal hliteral, stringValue_of_literal (h.kind?_eq ▸ hliteral), hvalue]
  · unfold stringValue
    rw [h.kind?_eq]
    split <;> rename_i hkind
    · exact absurd (.inl hkind) hliteral
    · exact absurd (.inr hkind) hliteral
    · exact h.templateValue_eq legible hkind
    · rfl

/-- Remarks do not change the modules that a node refers to. -/
theorem refersAlike (h : a.Remarked b) (legible : a.Legible d s) (hnode : a.isNode) :
    RefersAlike s a b := by
  have hcallee := h.get (by decide : "callee" ∉ remarkKeys)
  have harguments := h.get (by decide : "arguments" ∉ remarkKeys)
  have hsource := h.get (by decide : "source" ∉ remarkKeys)
  refine
    { lines := h.lines?_eq
      isObject := h.resembles.isObject_eq
      loader := ?_
      keyword := hcallee.kindIn_eq _
      arguments := harguments.resembles
      list := legible.isObject_eq_false hnode (by decide)
      first := harguments.first.imp_ok ?_
      source := hsource.resembles
      path := hsource.stringValue_eq (legible.get hnode (by decide)) }
  · rw [hcallee.kindIn_eq, (hcallee.get (by decide)).resembles.isOneOf_eq]
  · intro x y hfirst _ hxy
    -- The first argument is an item of a list, so it is legible too.
    rcases legible.first hnode (by decide) hfirst with rfl | ⟨items, hitems, hmem⟩
    · rw [hxy.eq_of_scalar rfl]
    · exact hxy.stringValue_eq (legible.item hnode (by decide) hitems hmem)

end Remarked

end Document

/-! ### Names by place -/

/-- Places whose nodes and parents differ in remarks only. -/
structure Placed.Remarked (p q : Placed) : Prop where
  node : p.node.Remarked q.node
  parent : p.parent.Remarked q.parent
  slot : q.slot = p.slot

namespace Placed.Remarked

variable {d : Dialect} {s : Settings} {p q : Placed}

theorem isUnder_eq (h : p.Remarked q) {key : String} (hkey : key ∉ remarkKeys) :
    q.isUnder key = p.isUnder key := by
  unfold isUnder
  rw [h.slot, (h.parent.get hkey).sameAnywhere_eq h.node]

/-- Remarks do not change the name of the binding that a node is assigned to. -/
theorem bindingName?_eq (h : p.Remarked q) (legible : p.parent.Legible d s) :
    q.bindingName? = p.bindingName? := by
  unfold bindingName?
  rw [h.parent.kind?_eq]
  cases hkind : p.parent.kind? with
  | none => rfl
  | some kind =>
    have hnode := Document.isNode_of_kind? hkind
    have hname : ∀ key, key ∉ nonChildKeys → key ∉ remarkKeys →
        (q.parent.get key).name? = (p.parent.get key).name? :=
      fun key hchild hkey => (h.parent.get hkey).name?_eq (legible.get hnode hchild)
    have hoperator := h.parent.field? (by decide : "operator" ∉ remarkKeys)
    simp only [h.isUnder_eq (by decide : "init" ∉ remarkKeys),
      h.isUnder_eq (by decide : "right" ∉ remarkKeys),
      h.isUnder_eq (by decide : "value" ∉ remarkKeys),
      (h.parent.get (by decide : "id" ∉ remarkKeys)).kind?_eq,
      (h.parent.get (by decide : "computed" ∉ remarkKeys)).resembles.truthy_eq,
      hname "id" (by decide) (by decide), hname "left" (by decide) (by decide),
      hname "key" (by decide) (by decide)]
    -- The operator is only compared with a text. A node there differs from it in either tree.
    generalize p.parent.field? "operator" = x, q.parent.field? "operator" = y at hoperator
    cases hoperator with
    | none => rfl
    | some hvalue => cases hvalue <;> rfl

/-- Remarks do not change the name of the scope that a node opens. -/
theorem name?_eq (h : p.Remarked q) (hnode : p.node.isNode) (legible : p.node.Legible d s)
    (hparent : p.parent.Legible d s) (naming : Naming) : naming.name? q = naming.name? p := by
  have hname : ∀ key, key ∉ nonChildKeys → key ∉ remarkKeys →
      (q.node.get key).name? = (p.node.get key).name? :=
    fun key hchild hkey => (h.node.get hkey).name?_eq (legible.get hnode hchild)
  cases naming with
  | binding => exact h.bindingName?_eq hparent
  | ownThenBinding =>
    show q.functionName? = p.functionName?
    rw [functionName?, functionName?, hname "id" (by decide) (by decide), h.bindingName?_eq hparent]
  | key =>
    show q.methodName? = p.methodName?
    rw [methodName?, methodName?, hname "key" (by decide) (by decide),
      (h.node.get (by decide : "computed" ∉ remarkKeys)).resembles.truthy_eq]

end Placed.Remarked

/-! ### Rules that overlook remarks -/

/-- Whether a key belongs to no remark. -/
def isRead (key : String) : Bool :=
  !remarkKeys.contains key

theorem not_mem_of_isRead {key : String} (h : isRead key) : key ∉ remarkKeys := by
  simpa [isRead] using h

/-- Whether a condition asks about no remark, and for the number of elements of lists only. -/
def Condition.overlooks : Condition → Bool
  | .always | .flag _ | .under _ => true
  | .truthy key | .present key | .isObject key | .oneOf key _ | .childKind key _ => isRead key
  | .several key => isRead key && sequenceKeys.contains key
  | .not c => c.overlooks
  | .and a b | .or a b => a.overlooks && b.overlooks

/-- Whether a piece of a token reads no remark. -/
def Piece.overlooks : Piece → Bool
  | .text _ => true
  | .shown key | .shownOrNothing key => isRead key
  | .inner key name => isRead key && isRead name

/-- Whether a token reads no remark. -/
def Token.overlooks : Token → Bool
  | .nothing | .text _ | .given _ => true
  | .choose c yes no => c.overlooks && yes.overlooks && no.overlooks
  | .field key | .literal key => isRead key
  | .composed pieces => pieces.all Piece.overlooks
  | .inner key name => isRead key && isRead name

/-- Whether a number depends on no remark. -/
def Count.overlooks : Count → Bool
  | .fixed _ | .given _ => true
  | .choose c _ _ => c.overlooks

/-- Whether the keys that are passed over depend on no remark. -/
def Skip.overlooks : Skip → Bool
  | .when c _ => c.overlooks
  | .given _ => true

/-- Whether a rule asks about no remark. -/
def Rule.overlooks (rule : Rule) : Bool :=
  rule.lloc.overlooks && rule.cyclomatic.overlooks && rule.operators.all Token.overlooks &&
    rule.operands.all Token.overlooks && rule.skip.overlooks

/-- The built-in dialects overlook remarks. -/
theorem overlooks_standard : ∀ entry ∈ Registry.standard.entries, ∀ rule ∈ entry.2.rules,
    rule.2.overlooks :=
  Registry.forall_rules (by decide +kernel) (by decide +kernel)

namespace Placed.Remarked

variable {d : Dialect} {s : Settings} {p q : Placed}

/-- A condition is answered in the same way. -/
theorem holds_eq (h : p.Remarked q)
    (hlist : ∀ key ∈ sequenceKeys, (p.node.get key).isObject = false) {c : Condition}
    (hc : c.overlooks) : c.holds s q = c.holds s p := by
  induction c with
  | always => rfl
  | flag f => rfl
  | under kinds => rw [Condition.holds, Condition.holds, h.parent.kindIn_eq]
  | truthy key =>
    rw [Condition.holds, Condition.holds, (h.node.get (not_mem_of_isRead hc)).resembles.truthy_eq]
  | present key =>
    rw [Condition.holds, Condition.holds, (h.node.get (not_mem_of_isRead hc)).resembles.isNull_eq]
  | isObject key =>
    rw [Condition.holds, Condition.holds, (h.node.get (not_mem_of_isRead hc)).resembles.isObject_eq]
  | oneOf key texts =>
    rw [Condition.holds, Condition.holds, (h.node.get (not_mem_of_isRead hc)).resembles.isOneOf_eq]
  | childKind key kind =>
    rw [Condition.holds, Condition.holds, (h.node.get (not_mem_of_isRead hc)).kindIn_eq]
  | several key =>
    rw [Condition.overlooks, Bool.and_eq_true, List.contains_iff_mem] at hc
    rw [Condition.holds, Condition.holds,
      (h.node.get (not_mem_of_isRead hc.1)).resembles.count_eq (hlist key hc.2)]
  | not c ih => rw [Condition.holds, Condition.holds, ih hc]
  | and a b iha ihb =>
    rw [Condition.overlooks, Bool.and_eq_true] at hc
    rw [Condition.holds, Condition.holds, iha hc.1, ihb hc.2]
  | or a b iha ihb =>
    rw [Condition.overlooks, Bool.and_eq_true] at hc
    rw [Condition.holds, Condition.holds, iha hc.1, ihb hc.2]

/-- A number is the same. -/
theorem count_eq (h : p.Remarked q)
    (hlist : ∀ key ∈ sequenceKeys, (p.node.get key).isObject = false) {n : Count}
    (hn : n.overlooks) : n.read s q = n.read s p := by
  cases n with
  | fixed n => rfl
  | given value => rfl
  | choose c yes no => rw [Count.read, Count.read, h.holds_eq hlist hn]

/-- The same keys are passed over. -/
theorem skip_eq (h : p.Remarked q)
    (hlist : ∀ key ∈ sequenceKeys, (p.node.get key).isObject = false) {skip : Skip}
    (hskip : skip.overlooks) : skip.read s q = skip.read s p := by
  cases skip with
  | when c keys => rw [Skip.read, Skip.read, h.holds_eq hlist hskip]
  | given value => rfl

/-- A piece of a token reads the same text. -/
theorem piece_eq (h : p.Remarked q) {piece : Piece} (hpiece : piece.overlooks)
    (scalar : ∀ value ∈ piece.texts p.node, value.isCollection = false) :
    piece.read q.node = piece.read p.node := by
  cases piece with
  | text t => rfl
  | shown key =>
    rw [Piece.read, Piece.read,
      h.node.get_eq (not_mem_of_isRead hpiece) (scalar _ List.mem_cons_self)]
  | shownOrNothing key =>
    rw [Piece.read, Piece.read,
      h.node.field?_eq (not_mem_of_isRead hpiece) (scalar _ List.mem_cons_self)]
  | inner key name =>
    rw [Piece.overlooks, Bool.and_eq_true] at hpiece
    rw [Piece.read, Piece.read, h.node.getIn_eq (not_mem_of_isRead hpiece.1)
      (not_mem_of_isRead hpiece.2) (scalar _ List.mem_cons_self)]

/-- The pieces of a token read the same text. -/
theorem pieces_eq (h : p.Remarked q) {pieces : List Piece} (hpieces : pieces.all Piece.overlooks)
    (scalar : ∀ value ∈ pieces.flatMap (·.texts p.node), value.isCollection = false) :
    Piece.readAll q.node pieces = Piece.readAll p.node pieces := by
  induction pieces with
  | nil => rfl
  | cons piece rest ih =>
    rw [List.all_cons, Bool.and_eq_true] at hpieces
    rw [List.flatMap_cons, List.forall_mem_append] at scalar
    rw [Piece.readAll, Piece.readAll, h.piece_eq hpieces.1 scalar.1, ih hpieces.2 scalar.2]

/-- A token reads the same identifiers. -/
theorem token_eq (h : p.Remarked q)
    (hlist : ∀ key ∈ sequenceKeys, (p.node.get key).isObject = false) {token : Token}
    (htoken : token.overlooks)
    (scalar : ∀ value ∈ token.textsRead s p, value.isCollection = false) :
    token.read s q = token.read s p := by
  induction token with
  | nothing => rfl
  | text t => rfl
  | given value => rfl
  | choose c yes no ihyes ihno =>
    rw [Token.overlooks, Bool.and_eq_true, Bool.and_eq_true] at htoken
    rw [Token.read, Token.read, h.holds_eq hlist htoken.1.1]
    rw [Token.textsRead] at scalar
    -- Only the token that the condition chooses is read.
    cases hc : c.holds s p with
    | error fault => rfl
    | ok chosen =>
      rw [hc] at scalar
      cases chosen with
      | true => exact ihyes htoken.1.2 scalar
      | false => exact ihno htoken.2 scalar
  | field key =>
    rw [Token.read, Token.read,
      h.node.get_eq (not_mem_of_isRead htoken) (scalar _ List.mem_cons_self)]
  | literal key =>
    rw [Token.read, Token.read,
      h.node.get_eq (not_mem_of_isRead htoken) (scalar _ List.mem_cons_self)]
  | composed pieces => rw [Token.read, Token.read, h.pieces_eq htoken scalar]
  | inner key name =>
    rw [Token.overlooks, Bool.and_eq_true] at htoken
    rw [Token.read, Token.read, h.node.getIn_eq (not_mem_of_isRead htoken.1)
      (not_mem_of_isRead htoken.2) (scalar _ List.mem_cons_self)]

/-- Several tokens read the same identifiers. -/
theorem tokens_eq (h : p.Remarked q)
    (hlist : ∀ key ∈ sequenceKeys, (p.node.get key).isObject = false) {tokens : List Token}
    (htokens : tokens.all Token.overlooks)
    (scalar : ∀ value ∈ tokens.flatMap (·.textsRead s p), value.isCollection = false) :
    Token.readAll s q tokens = Token.readAll s p tokens := by
  induction tokens with
  | nil => rfl
  | cons token rest ih =>
    rw [List.all_cons, Bool.and_eq_true] at htokens
    rw [List.flatMap_cons, List.forall_mem_append] at scalar
    rw [Token.readAll, Token.readAll, h.token_eq hlist htokens.1 scalar.1, ih htokens.2 scalar.2]

/-- Places with other remarks have the same rule. -/
theorem ruleFor_eq (h : p.Remarked q) : d.ruleFor q.node = d.ruleFor p.node := by
  rw [Dialect.ruleFor, Dialect.ruleFor, h.node.kind?_eq]

/-- A rule that overlooks remarks reads the same contribution at places with other remarks. -/
theorem read_eq (h : p.Remarked q) {rule : Rule} (hrule : d.ruleFor p.node = some rule)
    (hoverlooks : rule.overlooks) (legible : p.everywhere (d.legible s)) :
    rule.read s q = rule.read s p := by
  obtain ⟨kind, hkind, -⟩ := Option.bind_eq_some_iff.mp hrule
  have hnode := Document.isNode_of_kind? hkind
  have hlegible : p.node.Legible d s := fun _ => ⟨p, rfl, legible⟩
  have hlist : ∀ key ∈ sequenceKeys, (p.node.get key).isObject = false :=
    fun key hkey => hlegible.isObject_eq_false hnode hkey
  have hscalar : ∀ value ∈ (rule.operators ++ rule.operands).flatMap (·.textsRead s p),
      value.isCollection = false := by
    intro value hvalue
    have htest := (Placed.everywhere_iff.mp legible).1
    rw [Dialect.legible, Bool.and_eq_true, List.all_eq_true, Dialect.textsRead, hrule] at htest
    simpa using htest.1 value (List.mem_append_right _ hvalue)
  -- Keys that cannot be used are a fault only at a node with children, and remarks are none.
  have hlacks : ∀ ignored, rule.lacksKeys q ignored = rule.lacksKeys p ignored := by
    intro ignored
    rw [Rule.lacksKeys, Rule.lacksKeys,
      Document.isEmpty_eq_of_length (h.node.children ignored).length_eq]
  simp only [Rule.overlooks, Bool.and_eq_true] at hoverlooks
  obtain ⟨⟨⟨⟨hlloc, hcyclomatic⟩, hoperators⟩, hoperands⟩, hskip⟩ := hoverlooks
  rw [List.flatMap_append, List.forall_mem_append] at hscalar
  unfold Rule.read
  simp only [h.count_eq hlist hlloc, h.count_eq hlist hcyclomatic,
    h.tokens_eq hlist hoperators hscalar.1, h.tokens_eq hlist hoperands hscalar.2,
    h.skip_eq hlist hskip, hlacks]
  cases rule.dependency with
  | none => rfl
  | some form => simp only [(h.node.refersAlike hlegible hnode).read_eq]

end Placed.Remarked

end CodeMetrics
