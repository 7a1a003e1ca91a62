import CodeMetrics.Proofs.Dialect.MirroredNode

/-!
# `CodeMetrics.Proofs.Dialect.RebuiltNode`: literals, private names and directives

These nodes are built anew by the translation. Literals and private names are leaves with one
operand, spelled in the same way on both sides. A directive is a statement around a literal.
-/

set_option autoImplicit false

namespace CodeMetrics.Babel

open Document

variable {fields : List (String × Document)} {s : Settings} {lines : Lines Int} {p q : Placed}

/-! ### Literals and private names -/

/-- What a node adds that is a single operand. -/
def operand (text : String) (ignored : List String) : Contribution :=
  { lloc := 0, cyclomatic := 0, operators := [], operands := [text], dependency := none, ignored }

/-- A key that is neither set nor kept reads as null. -/
theorem get_build_of_not {key : String} (hkey : key ∉ nonChildKeys) (kind : String)
    {own : List (String × Document)} (hown : lookup key own = none) :
    (build kind own (sideFields fields)).get key = .null := by
  have htype : key ≠ "type" := fun h => hkey (h ▸ by decide)
  rw [Document.get, field?_build htype, hown, Option.none_or, sideFields,
    lookup_filter_of_not (fun key => nonChildKeys.contains key && key != "type")]
  · rfl
  · simp [hkey]

/-- A field that reads as a text is there. -/
theorem field?_of_get {d : Document} {key text : String} (h : d.get key = .string text) :
    d.field? key = some (.string text) := by
  rw [Document.get] at h
  cases hcase : d.field? key with
  | none =>
    rw [hcase] at h
    cases h
  | some value =>
    rw [hcase] at h
    exact congrArg some h

/-- A field of a part that is a node can be read. -/
theorem getIn_of_isNode {d : Document} {key : String} (h : (d.get key).isNode) (name : String) :
    d.getIn key name = .ok ((d.get key).field? name) := by
  have hrecord : (d.get key).record = .ok (d.get key) := by
    unfold record
    rw [if_pos (truthy_of_isNode h)]
    generalize d.get key = part at h
    cases part with
    | object inner => rfl
    | _ => cases h
  rw [getIn, hrecord]
  rfl

/-- A literal with a value and nothing else is one operand. -/
theorem harvest_literal {value : Document} (hscalar : value.isCollection = false)
    (hnode : q.node = build "Literal" [("value", value)] (sideFields fields)) :
    Estree.dialect.harvest s lines q = .ok (.ofContribution s (operand value.literalText [])) := by
  have hregex : q.node.get "regex" = .null := by
    rw [hnode]
    exact get_build_of_not (by decide) _ rfl
  have hbigint : q.node.get "bigint" = .null := by
    rw [hnode]
    exact get_build_of_not (by decide) _ rfl
  have hvalue : q.node.get "value" = value := by
    rw [hnode]
    rfl
  have hrule : Estree.dialect.ruleFor q.node = some { operands := [Estree.literalToken] } :=
    ruleFor_eq (by rw [hnode]; rfl) rfl
  refine Dialect.harvest_leaf hrule rfl ?_ ?_
  · simp only [Rule.read, Token.readAll, Estree.literalToken, Token.read, Condition.holds, hregex,
      hbigint, hvalue]
    rfl
  · rw [hnode, children_build]
    cases value with
    | list items => cases hscalar
    | object fields => cases hscalar
    | _ => rfl

/-- A literal that is spelled by its value is one operand. -/
theorem harvest_literalRule {kind : String} (hkind : p.node.kind? = some kind)
    (hrule : dialect.rule? kind = some literalRule) (leaf : p.node.children [] = []) :
    dialect.harvest s lines p =
      .ok (.ofContribution s (operand (p.node.get "value").literalText [])) :=
  Dialect.harvest_leaf (ruleFor_eq hkind hrule) rfl rfl leaf

/-- The translation of a literal that is spelled by its value is the same operand. -/
theorem harvest_translated_literal {kind : String} (hnode : p.node = .object fields)
    (hkind : p.node.kind? = some kind) (hform : form kind = .literal)
    (hrule : dialect.rule? kind = some literalRule)
    (hscalar : (p.node.get "value").isCollection = false) (leaf : p.node.children [] = [])
    (hq : q.node = translate p.node) :
    Estree.dialect.harvest s lines q = dialect.harvest s lines p := by
  have hbuilt : q.node =
      build "Literal" [("value", p.node.get "value")] (sideFields (translateFields fields)) := by
    rw [hq, hnode, translate_object (hnode ▸ hkind), hform]
    show build "Literal" [("value", _)] _ = _
    rw [get_translateFields (by decide), ← hnode, translate_of_scalar hscalar]
  rw [harvest_literalRule hkind hrule leaf, harvest_literal hscalar hbuilt]

theorem harvest_boolean {b : Bool} (hnode : p.node = .object fields)
    (hkind : p.node.kind? = some "BooleanLiteral") (hvalue : p.node.get "value" = .bool b)
    (leaf : p.node.children [] = []) (hq : q.node = translate p.node) :
    Estree.dialect.harvest s lines q = dialect.harvest s lines p := by
  have hbuilt : q.node =
      build "Literal" [("value", .bool b)] (sideFields (translateFields fields)) := by
    rw [hq, hnode, translate_object (hnode ▸ hkind)]
    show build "Literal" [("value", _)] _ = _
    rw [get_translateFields (by decide), ← hnode, hvalue]
    rfl
  rw [harvest_literal rfl hbuilt]
  refine (Dialect.harvest_leaf (ruleFor_eq hkind (rule?_own rfl)) rfl ?_ leaf).symm
  simp only [Rule.read, Token.readAll, Token.read, Condition.holds, hvalue]
  cases b <;> rfl

theorem harvest_null (hnode : p.node = .object fields) (hkind : p.node.kind? = some "NullLiteral")
    (leaf : p.node.children [] = []) (hq : q.node = translate p.node) :
    Estree.dialect.harvest s lines q = dialect.harvest s lines p := by
  have hbuilt : q.node = build "Literal" [("value", .null)] (sideFields (translateFields fields)) := by
    rw [hq, hnode, translate_object (hnode ▸ hkind)]
    rfl
  rw [harvest_literal rfl hbuilt]
  exact (Dialect.harvest_leaf (ruleFor_eq hkind (rule?_own rfl)) rfl rfl leaf).symm

theorem harvest_regExp {pattern flags : String} (hnode : p.node = .object fields)
    (hkind : p.node.kind? = some "RegExpLiteral") (hpattern : p.node.get "pattern" = .string pattern)
    (hflags : p.node.get "flags" = .string flags) (leaf : p.node.children [] = [])
    (hq : q.node = translate p.node) :
    Estree.dialect.harvest s lines q = dialect.harvest s lines p := by
  have hbuilt : q.node = build "Literal"
      [("value", .null), ("regex", .object [("pattern", .string pattern), ("flags", .string flags)])]
      (sideFields (translateFields fields)) := by
    rw [hq, hnode, translate_object (hnode ▸ hkind)]
    show build "Literal" [_, ("regex", .object [("pattern", _), ("flags", _)])] _ = _
    rw [get_translateFields (by decide), get_translateFields (by decide), ← hnode, hpattern, hflags]
    rfl
  have hregex : q.node.get "regex" =
      .object [("pattern", .string pattern), ("flags", .string flags)] := by
    rw [hbuilt]
    rfl
  have hestree : Estree.dialect.harvest s lines q = .ok (.ofContribution s
      (operand ("/" ++ (pattern ++ ("/" ++ (flags ++ "")))) [])) := by
    refine Dialect.harvest_leaf (ruleFor_eq (by rw [hbuilt]; rfl) rfl) rfl ?_ ?_
    · simp only [Rule.read, Token.readAll, Estree.literalToken, Token.read, Condition.holds, hregex,
        Piece.readAll, Piece.read, getIn]
      rfl
    · rw [hbuilt, children_build]
      rfl
  rw [hestree]
  refine (Dialect.harvest_leaf (ruleFor_eq hkind (rule?_own rfl)) rfl ?_ leaf).symm
  simp only [Rule.read, Token.readAll, Token.read, Piece.readAll, Piece.read, field?_of_get hpattern,
    field?_of_get hflags]
  rfl

theorem harvest_bigInt {digits : String} (hnode : p.node = .object fields)
    (hkind : p.node.kind? = some "BigIntLiteral") (hvalue : p.node.get "value" = .string digits)
    (leaf : p.node.children [] = []) (hq : q.node = translate p.node) :
    Estree.dialect.harvest s lines q = dialect.harvest s lines p := by
  have hbuilt : q.node = build "Literal" [("value", .null), ("bigint", .string digits)]
      (sideFields (translateFields fields)) := by
    rw [hq, hnode, translate_object (hnode ▸ hkind)]
    show build "Literal" [_, ("bigint", _)] _ = _
    rw [get_translateFields (by decide), ← hnode, hvalue]
    rfl
  -- The literal token asks for a regular expression before it asks for a big integer.
  have hregex : q.node.get "regex" = .null := by
    rw [hbuilt]
    exact get_build_of_not (by decide) _ rfl
  have hbigint : q.node.get "bigint" = .string digits := by
    rw [hbuilt]
    rfl
  have hestree : Estree.dialect.harvest s lines q =
      .ok (.ofContribution s (operand (digits ++ ("n" ++ "")) [])) := by
    refine Dialect.harvest_leaf (ruleFor_eq (by rw [hbuilt]; rfl) rfl) rfl ?_ ?_
    · simp only [Rule.read, Token.readAll, Estree.literalToken, Token.read, Condition.holds, hregex,
        hbigint, Piece.readAll, Piece.read]
      rfl
    · rw [hbuilt, children_build]
      rfl
  rw [hestree]
  refine (Dialect.harvest_leaf (ruleFor_eq hkind (rule?_own rfl)) rfl ?_ leaf).symm
  simp only [Rule.read, Token.readAll, Token.read, Piece.readAll, Piece.read, hvalue]
  rfl

theorem harvest_privateName {name : String} (hnode : p.node = .object fields)
    (hkind : p.node.kind? = some "PrivateName") (hid : (p.node.get "id").kind? = some "Identifier")
    (hname : (p.node.get "id").get "name" = .string name)
    (only : ∀ c ∈ p.node.children [], c.key = "id") (hq : q.node = translate p.node) :
    Estree.dialect.harvest s lines q = dialect.harvest s lines p := by
  -- Babel keeps the name one level further down, in the `id` that its rule does not visit.
  have hbuilt : q.node = build "PrivateIdentifier" [("name", .string name)]
      (sideFields (translateFields fields)) := by
    rw [hq, hnode, translate_object (hnode ▸ hkind)]
    show build "PrivateIdentifier" [("name", _)] _ = _
    rw [get_translateFields (by decide), ← hnode,
      get_translate (isPlain_of_shared hid (by decide)) (by decide), hname]
    rfl
  have hestree : Estree.dialect.harvest s lines q =
      .ok (.ofContribution s (operand ("#" ++ (name ++ "")) [])) := by
    have hget : q.node.get "name" = .string name := by
      rw [hbuilt]
      rfl
    refine Dialect.harvest_leaf (ruleFor_eq (by rw [hbuilt]; rfl) rfl) rfl ?_ ?_
    · simp only [Rule.read, Token.readAll, Token.read, Piece.readAll, Piece.read, hget]
      rfl
    · rw [hbuilt, children_build]
      rfl
  have hin : p.node.getIn "id" "name" = .ok (some (.string name)) := by
    rw [getIn_of_isNode (by rw [isNode, hid]; rfl), field?_of_get hname]
  have hbabel : dialect.harvest s lines p =
      .ok (.ofContribution s (operand ("#" ++ (name ++ "")) ["id"])) := by
    refine Dialect.harvest_leaf (ruleFor_eq hkind (rule?_own rfl)) rfl ?_ ?_
    · simp only [Rule.read, Token.readAll, Token.read, Piece.readAll, Piece.read, hin]
      rfl
    · rw [children_eq_filter]
      exact List.filter_eq_nil_iff.mpr fun c hc => by simp [operand, only c hc]
  rw [hestree, hbabel]
  rfl

/-! ### Directives -/

/-- The only child of a node that has one key for children. -/
theorem children_of_only {key : String} (hnode : p.node = .object fields)
    (hkeys : listsKeys [key] fields) (hkey : key ∉ nonChildKeys)
    (only : ∀ c ∈ p.node.children [], c.key = key) :
    p.node.children [] = childrenAt key (p.node.get key) := by
  have hfilter : (p.node.children []).filter (fun c => [key].contains c.key) = p.node.children [] :=
    List.filter_eq_self.mpr fun c hc => by simp [only c hc]
  rw [← hfilter, hnode, children_of_listsKeys hkeys (by simp) (by simpa using hkey),
    List.flatMap_singleton]

theorem childrenAt_of_isNode {key : String} {d : Document} (h : d.isNode) :
    childrenAt key d = [⟨key, true, d⟩] := by
  cases d with
  | object inner => rw [childrenAt, if_pos h]
  | _ => cases h

theorem harvest_directive {text : String} (hnode : p.node = .object fields)
    (hkind : p.node.kind? = some "Directive")
    (hliteral : (p.node.get "value").kind? = some "DirectiveLiteral")
    (hvalue : (p.node.get "value").get "value" = .string text)
    (leaf : (p.node.get "value").children [] = []) (hkeys : listsKeys ["value"] fields)
    (only : ∀ c ∈ p.node.children [], c.key = "value") (hq : q.node = translate p.node) :
    Estree.dialect.harvest s lines q = dialect.harvest s lines p := by
  have hbuilt : q.node = build "ExpressionStatement" [("expression", translate (p.node.get "value"))]
      (sideFields (translateFields fields)) := by
    rw [hq, hnode, translate_object (hnode ▸ hkind)]
    show build "ExpressionStatement" [("expression", _)] _ = _
    rw [get_translateFields (by decide)]
  have hchildren : p.node.children [] = [⟨"value", true, p.node.get "value"⟩] := by
    rw [children_of_only hnode hkeys (by decide) only,
      childrenAt_of_isNode (by rw [isNode, hliteral]; rfl)]
  have hchildren' : q.node.children [] =
      [⟨"expression", true, translate (p.node.get "value")⟩] := by
    rw [hbuilt, children_build]
    show childrenAt "expression" _ ++ [] = _
    rw [List.append_nil, childrenAt_of_isNode]
    rw [isNode_translate, isNode, hliteral]
    rfl
  -- The literal is a leaf wherever it stands.
  have hleaf : ∀ p' q' : Placed, p'.node = p.node.get "value" → q'.node = translate p'.node →
      Estree.dialect.harvest s lines q' = dialect.harvest s lines p' := by
    intro p' q' hp' hq'
    cases hcase : p.node.get "value" with
    | object inner =>
      rw [hcase] at hp' hliteral hvalue leaf
      exact harvest_translated_literal hp' (hp' ▸ hliteral) rfl (rule?_own rfl)
        (hp' ▸ by rw [hvalue]; rfl) (hp' ▸ leaf) hq'
    | _ => rw [hcase] at hliteral; cases hliteral
  have hestree : Estree.dialect.ruleFor q.node = some { lloc := .fixed 1 } :=
    ruleFor_eq (by rw [hbuilt]; rfl) rfl
  rw [Dialect.harvest_single hestree rfl rfl hchildren',
    Dialect.harvest_single (ruleFor_eq hkind (rule?_own rfl)) rfl rfl hchildren,
    hleaf (Child.placed p.node ⟨"value", true, p.node.get "value"⟩) _ rfl rfl]

end CodeMetrics.Babel
