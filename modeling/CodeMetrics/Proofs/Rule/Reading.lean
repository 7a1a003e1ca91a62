import CodeMetrics.Proofs.Document.Reordering
import CodeMetrics.Proofs.Node.Name
import CodeMetrics.Traversal

/-!
# `CodeMetrics.Proofs.Rule.Reading`: what is read at a node in another order

A rule reads most fields only for what they are: set or not, a text from a list, a node of a
kind. Some fields it reads as text, and the text of a list or an object depends on the order of
its parts. `Dialect.plainTexts` asks that the fields that are read as text hold neither.

Reading a rule then gives the same contribution at documents that are alike
(`Placed.Alike.read_eq`), and the scope that a node opens has the same name, the same parameters
and the same lines.
-/

set_option autoImplicit false

namespace CodeMetrics

/-! ### The values that are read as text -/

/-- The values that a piece of a token reads as text. -/
def Piece.texts (node : Document) : Piece → List Document
  | .text _ => []
  | .shown key | .shownOrNothing key => [node.get key]
  | .inner key name => [(node.get key).get name]

/-- The values that a token reads as text. -/
def Token.texts (node : Document) : Token → List Document
  | .nothing | .text _ | .given _ => []
  | .choose _ yes no => yes.texts node ++ no.texts node
  | .field key | .literal key => [node.get key]
  | .composed pieces => pieces.flatMap (·.texts node)
  | .inner key name => [(node.get key).get name]

/-- The values that names and paths read as text: the names of identifiers, and what the parts
of a template stand for. -/
def Document.ownTexts (node : Document) : List Document :=
  match node.kind? with
  | some "Identifier" | some "PrivateIdentifier" => [node.get "name"]
  | some "TemplateLiteral" =>
    match node.get "quasis" with
    | .list parts => parts.map fun part => (part.get "value").get "cooked"
    | _ => []
  | _ => []

/-- The values at a node that are read as text. -/
def Dialect.texts (d : Dialect) (node : Document) : List Document :=
  node.ownTexts ++
    (d.ruleFor node).elim [] fun rule => (rule.operators ++ rule.operands).flatMap (·.texts node)

/-- Whether all values that are read as text are texts, numbers, truth values or null. -/
def Dialect.plainTexts (d : Dialect) (fields : List (String × Document)) : Bool :=
  (d.texts (.object fields)).all fun value => !value.isCollection

namespace Document.Alike

variable {d : Dialect} {a b : Document}

/-- What is read as text holds neither a list nor an object. -/
theorem scalar (h : Alike d.plainTexts a b) {value : Document} (hvalue : value ∈ d.texts a) :
    value.isCollection = false := by
  cases a with
  | object fields =>
    have hplain := h.every
    rw [everyObject, Bool.and_eq_true, Dialect.plainTexts, List.all_eq_true] at hplain
    simpa using hplain.1 value hvalue
  | _ => cases hvalue

/-- A value that names and paths read as text is one that is read as text. -/
theorem scalar_of_own (h : Alike d.plainTexts a b) {value : Document}
    (hvalue : value ∈ a.ownTexts) : value.isCollection = false :=
  h.scalar (List.mem_append_left _ hvalue)

/-! ### Names -/

theorem literalName?_eq {p : List (String × Document) → Bool} (h : Alike p a b) :
    a.literalName? = b.literalName? := by
  cases h.reordered <;> rfl

/-- The static names of nodes that are alike are the same. -/
theorem name?_eq (h : Alike d.plainTexts a b) : a.name? = b.name? := by
  induction hsize : a.size using Nat.strongRecOn generalizing a b with
  | ind size ih =>
    have hget : ∀ kind key, a.kind? = some kind → (a.get key).name? = (b.get key).name? := by
      intro kind key hkind
      exact ih _ (hsize ▸ size_get_lt_of_kind hkind key) (h.get key) rfl
    -- The name of an identifier can be any value, and only a plain one is displayed in the same way
    -- after reordering.
    have hname : a.kind? = some "Identifier" ∨ a.kind? = some "PrivateIdentifier" →
        a.get "name" = b.get "name" := by
      intro hkind
      refine h.get_eq (h.scalar_of_own ?_)
      rcases hkind with hkind | hkind <;> simp [ownTexts, hkind]
    rw [Document.name?_eq, Document.name?_eq]
    unfold nameFrom
    rw [← h.kind?_eq]
    split <;> rename_i hkind
    · rw [hname (.inl hkind)]
    · rw [hname (.inr hkind)]
    · rw [hget _ "id" hkind]
    · rfl
    · exact (h.get "value").literalName?_eq
    · exact (h.get "value").literalName?_eq
    · exact (h.get "value").literalName?_eq
    · rw [(h.get "computed").reordered.truthy_eq, (h.get "object").kindIn_eq,
        hget _ "object" hkind, hget _ "property" hkind]
    · rw [(h.get "computed").reordered.truthy_eq, (h.get "object").kindIn_eq,
        hget _ "object" hkind, hget _ "property" hkind]
    · rfl

/-- The names of parameters that are alike are the same. -/
theorem parameterName_eq (h : Alike d.plainTexts a b) : a.parameterName = b.parameterName := by
  induction hsize : a.size using Nat.strongRecOn generalizing a b with
  | ind size ih =>
    have hget : ∀ kind key, a.kind? = some kind →
        (a.get key).parameterName = (b.get key).parameterName := by
      intro kind key hkind
      exact ih _ (hsize ▸ size_get_lt_of_kind hkind key) (h.get key) rfl
    rw [Document.parameterName_eq, Document.parameterName_eq]
    unfold parameterNameFrom
    rw [← h.kind?_eq]
    split <;> rename_i hkind
    · have hscalar : (a.get "name").isCollection = false :=
        h.scalar_of_own (by simp [ownTexts, hkind])
      rw [h.field?_eq hscalar]
    · exact hget _ "left" hkind
    · rw [hget _ "argument" hkind]
    · rw [hget _ "argument" hkind]
    · rfl
    · rfl
    · exact hget _ "parameter" hkind
    · rfl

/-- The names of the parameters of nodes that are alike are the same. -/
theorem parameterNames_eq (h : Alike d.plainTexts a b) :
    a.parameters.map parameterName = b.parameters.map parameterName := by
  have hparams := h.get "params"
  unfold parameters
  generalize a.get "params" = x, b.get "params" = y at hparams
  cases hparams.reordered with
  | list same =>
    have hitems := hparams.items
    clear hparams same
    induction hitems with
    | nil => rfl
    | cons hitem hrest ih =>
      rw [List.map_cons, List.map_cons, hitem.parameterName_eq]
      exact congrArg _ ih
  | _ => rfl

/-! ### Paths of dependencies -/

/-- What a template stands for is the same. -/
theorem templateValue_eq (h : Alike d.plainTexts a b) (hkind : a.kind? = some "TemplateLiteral") :
    a.templateValue = b.templateValue := by
  have hquasis := h.get "quasis"
  have hscalar : ∀ parts, a.get "quasis" = .list parts → ∀ part ∈ parts,
      ((part.get "value").get "cooked").isCollection = false := by
    intro parts hparts part hpart
    refine h.scalar_of_own ?_
    simp only [ownTexts, hkind, hparts]
    exact List.mem_map_of_mem hpart
  unfold templateValue
  rw [(h.get "expressions").reordered.truthy_eq]
  generalize a.get "quasis" = x, b.get "quasis" = y at hquasis hscalar
  split
  · rfl
  dsimp only
  rw [← hquasis.reordered.count_eq]
  refine bind_congr fun n => ?_
  split
  · -- The only part is the first one, and what it stands for is read as text.
    cases hquasis.reordered with
    | list same =>
      cases hquasis.items with
      | nil => rfl
      | cons hpart hrest =>
        have hcooked := hscalar _ rfl _ List.mem_cons_self
        cases hpart.reordered with
        | object order keys values =>
          show Document.getIn _ "value" "cooked" >>= _ = Document.getIn _ "value" "cooked" >>= _
          rw [hpart.getIn_eq hcooked]
        | _ => rfl
    | _ => rfl
  · rfl

/-- The value of a string literal or a template is the same. -/
theorem stringValue_eq (h : Alike d.plainTexts a b) : a.stringValue = b.stringValue := by
  have hvalue := h.get "value"
  unfold stringValue
  rw [← h.kind?_eq]
  generalize a.get "value" = x, b.get "value" = y at hvalue
  split <;> rename_i hkind
  · cases hvalue.reordered <;> rfl
  · cases hvalue.reordered <;> rfl
  · exact h.templateValue_eq hkind
  · rfl

end Document.Alike

/-! ### Names by place -/

/-- Places that are alike hold nodes that are alike, under parents that are alike. -/
structure Placed.Alike (p : List (String × Document) → Bool) (q q' : Placed) : Prop where
  node : Document.Alike p q.node q'.node
  parent : Document.Alike p q.parent q'.parent
  slot : q.slot = q'.slot

namespace Placed.Alike

variable {d : Dialect} {p q : Placed}

theorem isUnder_eq {t : List (String × Document) → Bool} (h : Placed.Alike t p q) (key : String) :
    p.isUnder key = q.isUnder key := by
  unfold isUnder
  rw [h.slot, (h.parent.get key).reordered.sameAnywhere_eq h.node.reordered]

/-- The binding that a node is assigned to has the same name. -/
theorem bindingName?_eq (h : Placed.Alike d.plainTexts p q) : p.bindingName? = q.bindingName? := by
  unfold bindingName?
  rw [← h.parent.kind?_eq]
  cases hkind : p.parent.kind? with
  | none => rfl
  | some kind =>
    have hfield := h.parent.field? "operator"
    simp only [h.isUnder_eq, (h.parent.get _).kind?_eq, (h.parent.get _).name?_eq,
      (h.parent.get _).reordered.truthy_eq]
    generalize p.parent.field? "operator" = x, q.parent.field? "operator" = y at hfield
    cases hfield with
    | none => rfl
    | some hvalue => cases hvalue.reordered <;> rfl

theorem functionName?_eq (h : Placed.Alike d.plainTexts p q) :
    p.functionName? = q.functionName? := by
  unfold functionName?
  rw [(h.node.get "id").name?_eq, h.bindingName?_eq]

theorem methodName?_eq (h : Placed.Alike d.plainTexts p q) : p.methodName? = q.methodName? := by
  unfold methodName?
  rw [(h.node.get "computed").reordered.truthy_eq, (h.node.get "key").name?_eq]

/-- The scope that a node opens has the same name. -/
theorem name?_eq (h : Placed.Alike d.plainTexts p q) (naming : Naming) :
    naming.name? p = naming.name? q := by
  cases naming with
  | binding => exact h.bindingName?_eq
  | ownThenBinding => exact h.functionName?_eq
  | key => exact h.methodName?_eq

/-! ### Rules -/

variable {s : Settings}

/-- A condition is answered in the same way. -/
theorem holds_eq {t : List (String × Document) → Bool} (h : Placed.Alike t p q)
    (c : Condition) : c.holds s p = c.holds s q := by
  induction c with
  | always => rfl
  | truthy key => exact congrArg _ (h.node.get key).reordered.truthy_eq
  | present key =>
    rw [Condition.holds, Condition.holds, (h.node.get key).reordered.isNull_eq]
  | isObject key => exact congrArg _ (h.node.get key).reordered.isObject_eq
  | oneOf key texts => exact congrArg _ ((h.node.get key).reordered.isOneOf_eq texts)
  | childKind key kind => exact congrArg _ ((h.node.get key).kindIn_eq [kind])
  | several key =>
    rw [Condition.holds, Condition.holds, (h.node.get key).reordered.count_eq]
  | under kinds => exact congrArg _ (h.parent.kindIn_eq kinds)
  | flag f => rfl
  | not c ih => rw [Condition.holds, Condition.holds, ih]
  | and a b iha ihb => rw [Condition.holds, Condition.holds, iha, ihb]
  | or a b iha ihb => rw [Condition.holds, Condition.holds, iha, ihb]

theorem count_eq {t : List (String × Document) → Bool} (h : Placed.Alike t p q)
    (count : Count) : count.read s p = count.read s q := by
  cases count with
  | fixed n => rfl
  | given value => rfl
  | choose c yes no => rw [Count.read, Count.read, h.holds_eq]

/-- A piece of a token reads the same text. -/
theorem piece_eq {t : List (String × Document) → Bool} (h : Placed.Alike t p q) (piece : Piece)
    (scalar : ∀ value ∈ piece.texts p.node, value.isCollection = false) :
    piece.read p.node = piece.read q.node := by
  cases piece with
  | text t => rfl
  | shown key => rw [Piece.read, Piece.read, h.node.get_eq (scalar _ List.mem_cons_self)]
  | shownOrNothing key =>
    rw [Piece.read, Piece.read, h.node.field?_eq (scalar _ List.mem_cons_self)]
  | inner key name =>
    rw [Piece.read, Piece.read, h.node.getIn_eq (scalar _ List.mem_cons_self)]

/-- The pieces of a token read the same text. -/
theorem pieces_eq {t : List (String × Document) → Bool} (h : Placed.Alike t p q)
    (pieces : List Piece)
    (scalar : ∀ value ∈ pieces.flatMap (·.texts p.node), value.isCollection = false) :
    Piece.readAll p.node pieces = Piece.readAll q.node pieces := by
  induction pieces with
  | nil => rfl
  | cons piece rest ih =>
    rw [List.flatMap_cons, List.forall_mem_append] at scalar
    rw [Piece.readAll, Piece.readAll, h.piece_eq piece scalar.1, ih scalar.2]

/-- A token reads the same identifiers. -/
theorem token_eq {t : List (String × Document) → Bool} (h : Placed.Alike t p q) (token : Token)
    (scalar : ∀ value ∈ token.texts p.node, value.isCollection = false) :
    token.read s p = token.read s q := by
  induction token with
  | nothing => rfl
  | text t => rfl
  | given value => rfl
  | choose c yes no ihyes ihno =>
    rw [Token.texts, List.forall_mem_append] at scalar
    rw [Token.read, Token.read, h.holds_eq, ihyes scalar.1, ihno scalar.2]
  | field key => rw [Token.read, Token.read, h.node.get_eq (scalar _ List.mem_cons_self)]
  | literal key => rw [Token.read, Token.read, h.node.get_eq (scalar _ List.mem_cons_self)]
  | composed pieces => rw [Token.read, Token.read, h.pieces_eq pieces scalar]
  | inner key name =>
    rw [Token.read, Token.read, h.node.getIn_eq (scalar _ List.mem_cons_self)]

/-- Several tokens read the same identifiers. -/
theorem tokens_eq {t : List (String × Document) → Bool} (h : Placed.Alike t p q)
    (tokens : List Token)
    (scalar : ∀ value ∈ tokens.flatMap (·.texts p.node), value.isCollection = false) :
    Token.readAll s p tokens = Token.readAll s q tokens := by
  induction tokens with
  | nil => rfl
  | cons token rest ih =>
    rw [List.flatMap_cons, List.forall_mem_append] at scalar
    rw [Token.readAll, Token.readAll, h.token_eq token scalar.1, ih scalar.2]

end Placed.Alike

/-! ### Dependencies -/

namespace Document.Alike

variable {d : Dialect} {s : Settings} {a b source source' : Document}

/-- The dependency on a source is the same. -/
theorem ofSource_eq (h : Alike d.plainTexts a b) (hsource : Alike d.plainTexts source source')
    (type : String) : Dependency.ofSource a source type = Dependency.ofSource b source' type := by
  unfold Dependency.ofSource
  rw [hsource.stringValue_eq, h.lines?_eq]

/-- The dependency on the first argument of a call is the same. -/
theorem ofFirst_eq (h : Alike d.plainTexts a b) (type : String) :
    (do return some (← Dependency.ofSource a (← (a.get "arguments").first) type)) =
      (do return some (← Dependency.ofSource b (← (b.get "arguments").first) type) :
        Except Fault (Option (Dependency Int))) := by
  refine Agree.eq ((h.get "arguments").first.bind fun x y hxy => ?_)
  rw [h.ofSource_eq hxy]
  exact .refl _

/-- The dependency that is found at a node is the same. -/
theorem dependency_eq (h : Alike d.plainTexts a b) (form : DependencyForm) :
    form.read s a = form.read s b := by
  have hcall : Dependency.commonjs s a = Dependency.commonjs s b := by
    unfold Dependency.commonjs
    simp only [h.requireObject_eq, (h.get _).kindIn_eq,
      ((h.get _).get _).reordered.isOneOf_eq, (h.get _).reordered.count_eq, h.ofFirst_eq]
  have himport : Dependency.dynamicImport a = Dependency.dynamicImport b := by
    unfold Dependency.dynamicImport
    simp only [h.requireObject_eq, (h.get _).kindIn_eq, (h.get _).reordered.truthy_eq,
      h.ofFirst_eq]
  cases form with
  | call =>
    show Dependency.ofCall s a = Dependency.ofCall s b
    rw [Dependency.ofCall, Dependency.ofCall, hcall, himport]
  | source =>
    show Dependency.esm a = Dependency.esm b
    unfold Dependency.esm
    rw [h.requireObject_eq]
    dsimp only
    rw [(h.get "source").reordered.isNull_eq, h.ofSource_eq (h.get "source")]

end Document.Alike

/-! ### Whole rules -/

namespace Placed.Alike

variable {d : Dialect} {s : Settings} {p q : Placed}

/-- Nodes that are alike have the same rule. -/
theorem ruleFor_eq (h : Placed.Alike d.plainTexts p q) : d.ruleFor p.node = d.ruleFor q.node := by
  unfold Dialect.ruleFor
  rw [h.node.kind?_eq]

/-- A rule asks for the same keys. -/
theorem lacksKeys_eq (h : Placed.Alike d.plainTexts p q) (rule : Rule) (ignored : List String) :
    rule.lacksKeys p ignored = rule.lacksKeys q ignored := by
  unfold Rule.lacksKeys
  rw [Document.isEmpty_eq_of_length (h.node.children ignored).length_eq]

/-- The rule of a node reads the same contribution. -/
theorem read_eq (h : Placed.Alike d.plainTexts p q) {rule : Rule}
    (hrule : d.ruleFor p.node = some rule) : rule.read s p = rule.read s q := by
  have hscalar : ∀ value ∈ (rule.operators ++ rule.operands).flatMap (·.texts p.node),
      value.isCollection = false := by
    intro value hvalue
    refine h.node.scalar (List.mem_append_right _ ?_)
    rw [hrule]
    exact hvalue
  rw [List.flatMap_append, List.forall_mem_append] at hscalar
  have hskip : rule.skip.read s p = rule.skip.read s q := by
    cases rule.skip with
    | when c keys => rw [Skip.read, Skip.read, h.holds_eq]
    | given value => rfl
  unfold Rule.read
  simp only [h.count_eq, h.tokens_eq _ hscalar.1, h.tokens_eq _ hscalar.2, hskip, h.lacksKeys_eq]
  cases rule.dependency with
  | none => rfl
  | some form => simp only [h.node.dependency_eq]

end Placed.Alike

/-- Children that are alike stand at places that are alike. -/
theorem Child.Alike.placed {t : List (String × Document) → Bool} {c c' : Child}
    {parent parent' : Document} (h : c.Alike t c') (hparent : Document.Alike t parent parent') :
    Placed.Alike t (c.placed parent) (c'.placed parent') where
  node := h.node
  parent := hparent
  slot := by
    unfold Child.placed
    rw [h.key, h.direct]

end CodeMetrics
