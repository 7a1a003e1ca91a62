import CodeMetrics.Proofs.Dialect.Translation
import CodeMetrics.Proofs.Result

/-!
# `CodeMetrics.Proofs.Dialect.PortableRule`: rules that read little of a node

A rule asks a node for little: which fields are set, which of some texts a field holds, of what
kind a part or the parent is. `portableRule` checks that a rule asks for nothing else, and all
rules of ESTree pass (`portable_rules`).

Two trees for the same program have nodes whose parts are different, but answer such questions in
the same way. `Document.Resembles` says so of two values and `Placed.Resembles` of the nodes
at two places. A portable rule reads the same contribution there (`Placed.Resembles.read_eq`).
-/

set_option autoImplicit false

namespace CodeMetrics

open Babel (listKeys innerKeys isPlain)

/-! ### Portable rules -/

namespace Babel

/-- The kinds of parents that rules ask about. -/
def askedParents : List (List String) :=
  [["ExpressionStatement"], ["ObjectExpression", "RecordExpression"]]

/-- Whether a key can hold something that is translated. -/
def isOpen (key : String) : Bool :=
  !nonChildKeys.contains key

theorem not_mem_of_isOpen {key : String} (h : isOpen key) : key ∉ nonChildKeys := by
  simpa [isOpen] using h

/-- Whether a condition asks only for what is the same at nodes that resemble each other. Of the
parent it asks only whether it is of one of the given groups of kinds. -/
def portableCondition (asked : List (List String)) : Condition → Bool
  | .always | .flag _ => true
  | .truthy key | .present key | .isObject key | .oneOf key _ => isOpen key
  | .childKind key kind => isOpen key && kind == "FunctionExpression"
  | .several key => isOpen key && listKeys.contains key
  | .under kinds => asked.contains kinds
  | .not c => portableCondition asked c
  | .and a b | .or a b => portableCondition asked a && portableCondition asked b

/-- Whether a piece of a token reads what is the same at nodes that resemble each other. -/
def portablePiece : Piece → Bool
  | .text _ => true
  | .shown key | .shownOrNothing key => isOpen key
  | .inner key name => isOpen key && isOpen name

/-- Whether a token reads what is the same at nodes that resemble each other. -/
def portableToken (asked : List (List String)) : Token → Bool
  | .nothing | .text _ | .given _ => true
  | .choose c yes no =>
    portableCondition asked c && portableToken asked yes && portableToken asked no
  | .field key | .literal key => isOpen key
  | .composed pieces => pieces.all portablePiece
  | .inner key name => isOpen key && isOpen name

/-- Whether a number depends on what is the same at nodes that resemble each other. -/
def portableCount (asked : List (List String)) : Count → Bool
  | .fixed _ | .given _ => true
  | .choose c _ _ => portableCondition asked c

/-- Whether a rule reads what is the same at nodes that resemble each other. -/
def portableRule (asked : List (List String)) (rule : Rule) : Bool :=
  portableCount asked rule.lloc && portableCount asked rule.cyclomatic &&
  (rule.operators ++ rule.operands).all (portableToken asked) && rule.scopeKeys.usable &&
  match rule.skip with
  | .when c _ => portableCondition asked c
  | .given _ => true

/-- All rules of ESTree do. -/
theorem portable_rules : ∀ entry ∈ Estree.rules, portableRule askedParents entry.2 := by
  decide

end Babel

open Babel

/-! ### Values that resemble each other -/

/-- Two values are the same for a rule that neither reads them as text nor looks inside. -/
inductive Document.Resembles : Document → Document → Prop
  | scalar {d : Document} (h : d.isCollection = false) : Resembles d d
  | list {items items' : List Document} (length : items'.length = items.length) :
      Resembles (.list items) (.list items')
  | object {fields fields' : List (String × Document)} (empty : fields'.isEmpty = fields.isEmpty)
      (function : (Document.object fields').kindIn ["FunctionExpression"] =
        (Document.object fields).kindIn ["FunctionExpression"]) :
      Resembles (.object fields) (.object fields')

namespace Document.Resembles

variable {a b : Document}

theorem truthy_eq (h : a.Resembles b) : b.truthy = a.truthy := by
  cases h with
  | scalar h => rfl
  | @list items items' length => cases items <;> cases items' <;> simp_all [truthy]
  | object empty function => rw [truthy, truthy, empty]

theorem isNull_eq (h : a.Resembles b) : b.isNull = a.isNull := by
  cases h <;> rfl

theorem isObject_eq (h : a.Resembles b) : b.isObject = a.isObject := by
  cases h <;> rfl

theorem isOneOf_eq (h : a.Resembles b) (texts : List String) :
    b.isOneOf texts = a.isOneOf texts := by
  cases h <;> rfl

theorem kindIn_eq (h : a.Resembles b) :
    b.kindIn ["FunctionExpression"] = a.kindIn ["FunctionExpression"] := by
  cases h with
  | scalar h => rfl
  | list length => rfl
  | object empty function => exact function

/-- What has elements to count and is no object has as many of them. -/
theorem count_eq (h : a.Resembles b) (hobject : a.isObject = false) : b.count = a.count := by
  cases h with
  | scalar h => rfl
  | list length => rw [count, count, length]
  | object empty function => cases hobject

end Document.Resembles

/-! ### Nodes that resemble each other -/

/-- The nodes at two places resemble each other in their fields, and hold the same texts. What is
asked of the parents is the same. -/
structure Placed.Resembles (asked : List (List String)) (p q : Placed) : Prop where
  get : ∀ {key}, key ∉ nonChildKeys → (p.node.get key).Resembles (q.node.get key)
  scalar : ∀ {key}, key ∉ nonChildKeys → (p.node.get key).isCollection = false →
    q.node.field? key = p.node.field? key
  inner : ∀ {key name}, key ∉ nonChildKeys → name ∉ nonChildKeys → isPlain (p.node.get key) →
    ((p.node.get key).get name).isCollection = false → q.node.getIn key name = p.node.getIn key name
  lists : ∀ key ∈ listKeys, (p.node.get key).isObject = false
  under : ∀ kinds ∈ asked, q.parent.kindIn kinds = p.parent.kindIn kinds

namespace Placed.Resembles

variable {asked : List (List String)} {p q : Placed} {s : Settings}

/-- A condition is answered in the same way. -/
theorem holds_eq (h : p.Resembles asked q) {c : Condition} (hc : portableCondition asked c) :
    c.holds s q = c.holds s p := by
  induction c with
  | always => rfl
  | flag f => rfl
  | truthy key => rw [Condition.holds, Condition.holds, (h.get (not_mem_of_isOpen hc)).truthy_eq]
  | present key => rw [Condition.holds, Condition.holds, (h.get (not_mem_of_isOpen hc)).isNull_eq]
  | isObject key =>
    rw [Condition.holds, Condition.holds, (h.get (not_mem_of_isOpen hc)).isObject_eq]
  | oneOf key texts =>
    rw [Condition.holds, Condition.holds, (h.get (not_mem_of_isOpen hc)).isOneOf_eq]
  | childKind key kind =>
    rw [portableCondition, Bool.and_eq_true, beq_iff_eq] at hc
    obtain ⟨hkey, rfl⟩ := hc
    rw [Condition.holds, Condition.holds, (h.get (not_mem_of_isOpen hkey)).kindIn_eq]
  | several key =>
    rw [portableCondition, Bool.and_eq_true, List.contains_iff_mem] at hc
    rw [Condition.holds, Condition.holds,
      (h.get (not_mem_of_isOpen hc.1)).count_eq (h.lists key hc.2)]
  | under kinds =>
    rw [portableCondition, List.contains_iff_mem] at hc
    rw [Condition.holds, Condition.holds, h.under kinds hc]
  | not c ih => rw [Condition.holds, Condition.holds, ih hc]
  | and a b iha ihb =>
    rw [portableCondition, Bool.and_eq_true] at hc
    rw [Condition.holds, Condition.holds, iha hc.1, ihb hc.2]
  | or a b iha ihb =>
    rw [portableCondition, Bool.and_eq_true] at hc
    rw [Condition.holds, Condition.holds, iha hc.1, ihb hc.2]

theorem count_eq (h : p.Resembles asked q) {count : Count} (hcount : portableCount asked count) :
    count.read s q = count.read s p := by
  cases count with
  | fixed n => rfl
  | given value => rfl
  | choose c yes no => rw [Count.read, Count.read, h.holds_eq hcount]

theorem get_eq (h : p.Resembles asked q) {key : String} (hkey : isOpen key)
    (hscalar : (p.node.get key).isCollection = false) : q.node.get key = p.node.get key := by
  rw [Document.get, h.scalar (not_mem_of_isOpen hkey) hscalar, Document.get]

theorem getIn_eq (h : p.Resembles asked q) {key name : String} (hkey : isOpen key)
    (hname : isOpen name) (hplain : isPlain (p.node.get key))
    (hscalar : ((p.node.get key).get name).isCollection = false) :
    q.node.getIn key name = p.node.getIn key name :=
  h.inner (not_mem_of_isOpen hkey) (not_mem_of_isOpen hname) hplain hscalar

/-- A piece of a token reads the same text. -/
theorem piece_eq (h : p.Resembles asked q) {piece : Piece} (hpiece : portablePiece piece)
    (hscalar : ∀ value ∈ piece.texts p.node, value.isCollection = false)
    (hplain : ∀ key name, piece = .inner key name → isPlain (p.node.get key)) :
    piece.read q.node = piece.read p.node := by
  cases piece with
  | text t => rfl
  | shown key => rw [Piece.read, Piece.read, h.get_eq hpiece (hscalar _ List.mem_cons_self)]
  | shownOrNothing key =>
    rw [Piece.read, Piece.read, h.scalar (not_mem_of_isOpen hpiece) (hscalar _ List.mem_cons_self)]
  | inner key name =>
    rw [portablePiece, Bool.and_eq_true] at hpiece
    rw [Piece.read, Piece.read,
      h.getIn_eq hpiece.1 hpiece.2 (hplain key name rfl) (hscalar _ List.mem_cons_self)]

/-- The pieces of a token read the same text. -/
theorem pieces_eq (h : p.Resembles asked q) {pieces : List Piece}
    (hpieces : pieces.all portablePiece)
    (hscalar : ∀ value ∈ pieces.flatMap (·.texts p.node), value.isCollection = false)
    (hplain : ∀ key ∈ innerKeys (.composed pieces), isPlain (p.node.get key)) :
    Piece.readAll q.node pieces = Piece.readAll p.node pieces := by
  induction pieces with
  | nil => rfl
  | cons piece rest ih =>
    rw [List.all_cons, Bool.and_eq_true] at hpieces
    rw [List.flatMap_cons, List.forall_mem_append] at hscalar
    have hfirst : ∀ key name, piece = .inner key name → isPlain (p.node.get key) := by
      rintro key name rfl
      exact hplain key (by simp [innerKeys])
    have hrest : ∀ key ∈ innerKeys (.composed rest), isPlain (p.node.get key) := by
      intro key hkey
      refine hplain key ?_
      cases piece <;> simp_all [innerKeys]
    rw [Piece.readAll, Piece.readAll, h.piece_eq hpieces.1 hscalar.1 hfirst,
      ih hpieces.2 hscalar.2 hrest]

/-- A token reads the same identifiers. -/
theorem token_eq (h : p.Resembles asked q) {token : Token} (htoken : portableToken asked token)
    (hscalar : ∀ value ∈ token.texts p.node, value.isCollection = false)
    (hplain : ∀ key ∈ innerKeys token, isPlain (p.node.get key)) :
    token.read s q = token.read s p := by
  induction token with
  | nothing => rfl
  | text t => rfl
  | given value => rfl
  | choose c yes no ihyes ihno =>
    rw [portableToken, Bool.and_eq_true, Bool.and_eq_true] at htoken
    rw [Token.texts, List.forall_mem_append] at hscalar
    rw [innerKeys, List.forall_mem_append] at hplain
    rw [Token.read, Token.read, h.holds_eq htoken.1.1, ihyes htoken.1.2 hscalar.1 hplain.1,
      ihno htoken.2 hscalar.2 hplain.2]
  | field key => rw [Token.read, Token.read, h.get_eq htoken (hscalar _ List.mem_cons_self)]
  | literal key => rw [Token.read, Token.read, h.get_eq htoken (hscalar _ List.mem_cons_self)]
  | composed pieces => rw [Token.read, Token.read, h.pieces_eq htoken hscalar hplain]
  | inner key name =>
    rw [portableToken, Bool.and_eq_true] at htoken
    rw [Token.read, Token.read, h.getIn_eq htoken.1 htoken.2 (hplain _ List.mem_cons_self)
      (hscalar _ List.mem_cons_self)]

/-- Several tokens read the same identifiers. -/
theorem tokens_eq (h : p.Resembles asked q) {tokens : List Token}
    (htokens : tokens.all (portableToken asked))
    (hscalar : ∀ value ∈ tokens.flatMap (·.texts p.node), value.isCollection = false)
    (hplain : ∀ key ∈ tokens.flatMap innerKeys, isPlain (p.node.get key)) :
    Token.readAll s q tokens = Token.readAll s p tokens := by
  induction tokens with
  | nil => rfl
  | cons token rest ih =>
    rw [List.all_cons, Bool.and_eq_true] at htokens
    rw [List.flatMap_cons, List.forall_mem_append] at hscalar hplain
    rw [Token.readAll, Token.readAll, h.token_eq htokens.1 hscalar.1 hplain.1,
      ih htokens.2 hscalar.2 hplain.2]

/-- A rule with usable keys never lacks them. -/
theorem lacksKeys_eq {rule : Rule} (h : rule.scopeKeys.usable) (p : Placed)
    (ignored : List String) : rule.lacksKeys p ignored = false := by
  simp [Rule.lacksKeys, h]

/-- A portable rule reads the same contribution at nodes that resemble each other, if the same
dependency is found there. -/
theorem read_eq {rule : Rule} (h : p.Resembles asked q) (hrule : portableRule asked rule)
    (hscalar : ∀ value ∈ (rule.operators ++ rule.operands).flatMap (·.texts p.node),
      value.isCollection = false)
    (hplain : ∀ key ∈ (rule.operators ++ rule.operands).flatMap innerKeys,
      isPlain (p.node.get key))
    (hdependency : ∀ form ∈ rule.dependency, form.read s q.node = form.read s p.node) :
    rule.read s q = rule.read s p := by
  simp only [portableRule, List.all_append, Bool.and_eq_true] at hrule
  obtain ⟨⟨⟨⟨hlloc, hcyclomatic⟩, hoperators, hoperands⟩, husable⟩, hskip⟩ := hrule
  rw [List.flatMap_append, List.forall_mem_append] at hscalar hplain
  have hskips : rule.skip.read s q = rule.skip.read s p := by
    cases hcase : rule.skip with
    | when c keys =>
      rw [hcase] at hskip
      rw [Skip.read, Skip.read, h.holds_eq hskip]
    | given value => rfl
  unfold Rule.read
  simp only [h.count_eq hlloc, h.count_eq hcyclomatic, h.tokens_eq hoperators hscalar.1 hplain.1,
    h.tokens_eq hoperands hscalar.2 hplain.2, hskips, lacksKeys_eq husable]
  cases hform : rule.dependency with
  | none => rfl
  | some form => simp only [hdependency form hform]

end Placed.Resembles

/-! ### Texts and dependencies -/

namespace Document

variable {a b : Document}

/-- Looking into records that resemble each other gives the same value, if both hold it. -/
theorem Resembles.getIn_eq {key name : String} (h : (a.get key).Resembles (b.get key))
    (hfield : (b.get key).field? name = (a.get key).field? name) :
    b.getIn key name = a.getIn key name := by
  unfold getIn record
  rw [h.truthy_eq]
  generalize a.get key = x, b.get key = y at h hfield
  split
  · cases h with
    | scalar h => rfl
    | list length => rfl
    | object empty function => exact congrArg Except.ok hfield
  · rfl

/-- The kinds of nodes that stand for a text. -/
def textKinds : List String := ["Literal", "StringLiteral", "TemplateLiteral"]

theorem stringValue_of_other {d : Document} (h : ∀ kind, d.kind? = some kind → kind ∉ textKinds) :
    d.stringValue = .ok none := by
  unfold stringValue
  split
  case h_4 => rfl
  all_goals exact absurd (h _ ‹_›) (by decide)

/-- What a literal stands for. -/
def literalValue : Document → Except Fault (Option Document)
  | .string s => .ok (some (.string s))
  | _ => .ok none

theorem stringValue_of_literal {d : Document}
    (h : d.kind? = some "Literal" ∨ d.kind? = some "StringLiteral") :
    d.stringValue = literalValue (d.get "value") := by
  unfold stringValue
  rcases h with h | h <;> rw [h] <;> rfl

theorem Resembles.literalValue_eq (h : a.Resembles b) : literalValue b = literalValue a := by
  cases h <;> rfl

/-- Templates stand for the same text if their first parts do. -/
theorem templateValue_eq
    (hexpressions : (b.get "expressions").truthy = (a.get "expressions").truthy)
    (hquasis : (a.get "quasis").Resembles (b.get "quasis"))
    (hobject : (a.get "quasis").isObject = false)
    (hfirst : Agree (fun part part' => part.Resembles part' ∧
        part'.getIn "value" "cooked" = part.getIn "value" "cooked")
      (a.get "quasis").first (b.get "quasis").first) :
    b.templateValue = a.templateValue := by
  unfold templateValue
  rw [hexpressions]
  split
  · rfl
  · dsimp only
    rw [hquasis.count_eq hobject]
    refine bind_congr fun n => ?_
    split
    · refine ((hfirst.bind fun part part' hpart => ?_).eq).symm
      obtain ⟨hresembles, hin⟩ := hpart
      cases hresembles with
      | scalar h => exact Agree.refl _
      | list length => exact Agree.refl _
      | object empty function =>
        dsimp only
        rw [hin]
        exact Agree.refl _
    · rfl

/-- Two nodes refer to the same other modules: they stand on the same lines, call the same
function, and name what they refer to by the same texts. -/
structure RefersAlike (s : Settings) (a b : Document) : Prop where
  lines : b.lines? = a.lines?
  isObject : b.isObject = a.isObject
  loader : ((b.get "callee").kindIn ["Identifier"] &&
      ((b.get "callee").get "name").isOneOf [s.requireName]) =
    ((a.get "callee").kindIn ["Identifier"] &&
      ((a.get "callee").get "name").isOneOf [s.requireName])
  keyword : (b.get "callee").kindIn ["Import"] = (a.get "callee").kindIn ["Import"]
  arguments : (a.get "arguments").Resembles (b.get "arguments")
  list : (a.get "arguments").isObject = false
  first : Agree (fun x y => y.stringValue = x.stringValue)
    (a.get "arguments").first (b.get "arguments").first
  source : (a.get "source").Resembles (b.get "source")
  path : (b.get "source").stringValue = (a.get "source").stringValue

namespace RefersAlike

variable {s : Settings}

theorem ofSource_eq (h : RefersAlike s a b) {x y : Document}
    (hvalue : y.stringValue = x.stringValue) (type : String) :
    Dependency.ofSource b y type = Dependency.ofSource a x type := by
  unfold Dependency.ofSource
  rw [hvalue, h.lines]

/-- The dependency on the first argument is the same. -/
theorem ofFirst_eq (h : RefersAlike s a b) (type : String) :
    (do return some (← Dependency.ofSource b (← (b.get "arguments").first) type)) =
      (do return some (← Dependency.ofSource a (← (a.get "arguments").first) type) :
        Except Fault (Option (Dependency Int))) := by
  refine ((h.first.bind fun x y hvalue => ?_).eq).symm
  rw [h.ofSource_eq hvalue]
  exact Agree.refl _

/-- The same dependency is found at nodes that refer alike. -/
theorem read_eq (h : RefersAlike s a b) (form : DependencyForm) :
    form.read s b = form.read s a := by
  have hrequire : b.requireObject = a.requireObject := by
    rw [requireObject, requireObject, h.isObject]
  have hcall : Dependency.commonjs s b = Dependency.commonjs s a := by
    unfold Dependency.commonjs
    simp only [hrequire, h.loader, h.arguments.count_eq h.list, h.ofFirst_eq]
  have himport : Dependency.dynamicImport b = Dependency.dynamicImport a := by
    unfold Dependency.dynamicImport
    simp only [hrequire, h.keyword, h.arguments.truthy_eq, h.ofFirst_eq]
  cases form with
  | call =>
    show Dependency.ofCall s b = Dependency.ofCall s a
    rw [Dependency.ofCall, Dependency.ofCall, hcall, himport]
  | source =>
    show Dependency.esm b = Dependency.esm a
    unfold Dependency.esm
    rw [hrequire]
    dsimp only
    rw [h.source.isNull_eq, h.ofSource_eq h.path]

end RefersAlike

end Document

end CodeMetrics
