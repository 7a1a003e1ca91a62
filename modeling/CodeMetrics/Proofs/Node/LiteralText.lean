import CodeMetrics.Proofs.Dialect.TranslatedName
import CodeMetrics.Proofs.Document.Readable
import CodeMetrics.Proofs.Scope.ClassAttribution
import CodeMetrics.Proofs.Text.Quoted

/-!
# `CodeMetrics.Proofs.Node.LiteralText`: literals among the operands

A literal is an operand, under the text that a program spells its value with. Two texts that are
spelled alike are the same (`literalText_string_inj`), and no other value is spelled like a text
(`literalText_string_ne`), because a quote comes first in one and nowhere in a number or a word.

`Document.literal?` is the value of a literal, whatever its kind. Each literal that a dialect knows
adds one operand, the spelled value (`operands_of_literal`). So the number that a tally has for a
quoted text is the number of literals with this text, together with what other nodes than literals
add. This holds of every scope (`Scope.Collects.spellsTexts`).
-/

set_option autoImplicit false

namespace CodeMetrics

namespace Document

/-! ### Spelled values -/

/-- Texts that are spelled alike are the same. -/
theorem literalText_string_inj {s t : String}
    (h : (string s).literalText = (string t).literalText) : s = t :=
  Text.quoted_injective h

/-- A text is spelled with a quote at its beginning. -/
theorem head?_literalText_string (s : String) :
    (string s).literalText.toList.head? = some Text.doubleQuote := by
  show (Text.quoted s).toList.head? = _
  rw [Text.quoted, Text.quoteWith, String.toList_ofList]
  rfl

/-- A number is spelled without quotes. -/
theorem head?_ne_of_isNumeral {text : List Char} (h : ∀ c ∈ text, Decimal.isNumeral c) :
    text.head? ≠ some Text.doubleQuote := by
  intro hhead
  have hquote := h Text.doubleQuote (List.mem_of_mem_head? hhead)
  exact absurd hquote (by decide)

/-- Other values are not. -/
theorem head?_literalText_ne {v : Document} (h : v.isText = false) :
    v.literalText.toList.head? ≠ some Text.doubleQuote := by
  cases v with
  | null => decide
  | bool b => cases b <;> decide
  | int n => exact head?_ne_of_isNumeral (isNumeral_intText n)
  | float x =>
    unfold literalText
    dsimp only
    split
    · exact head?_ne_of_isNumeral (isNumeral_intText _)
    · exact head?_ne_of_isNumeral (isNumeral_floatText x)
  | string s => cases h
  | list items => simp [literalText, display, write, Text.doubleQuote]
  | object fields => simp [literalText, display, write, Text.doubleQuote]

/-- A text is spelled like no other value. -/
theorem literalText_string_ne (s : String) {v : Document} (h : v.isText = false) :
    (string s).literalText ≠ v.literalText := by
  intro heq
  have hhead := head?_literalText_string s
  rw [heq] at hhead
  exact head?_literalText_ne h hhead

/-- A value is spelled like a text if it is this text. -/
theorem literalText_eq_string_iff {s : String} {v : Document} :
    (string s).literalText = v.literalText ↔ v = string s := by
  constructor
  · intro heq
    cases hv : v.isText with
    | true =>
      cases v with
      | string t => rw [literalText_string_inj heq]
      | _ => cases hv
    | false => exact absurd heq (literalText_string_ne s hv)
  · rintro rfl
    rfl

/-! ### Literals -/

/-- The value of a literal. Regular expressions and big numbers are not spelled by a value. -/
def literal? (node : Document) : Option Document :=
  match node.kind? with
  | some "Literal" =>
    if (node.get "regex").isObject || !(node.get "bigint").isNull then none
    else some (node.get "value")
  | some "StringLiteral" | some "DirectiveLiteral" | some "NumericLiteral" =>
    some (node.get "value")
  | some "BooleanLiteral" => some (.bool (node.get "value").truthy)
  | some "NullLiteral" => some .null
  | _ => none

end Document

/-- The kinds of literals that are spelled by a value. -/
def spelledKinds : List String :=
  ["Literal", "StringLiteral", "DirectiveLiteral", "NumericLiteral", "BooleanLiteral",
   "NullLiteral"]

/-- The operand that a literal of such a kind adds. -/
def literalOperand : String → Token
  | "Literal" => Estree.literalToken
  | "BooleanLiteral" => .choose (.truthy "value") (.text "true") (.text "false")
  | "NullLiteral" => .text "null"
  | _ => .literal "value"

/-- A literal is of one of these kinds, and its operand is its value as a program spells it. -/
theorem read_literalOperand {p : Placed} {v : Document} (h : p.node.literal? = some v)
    (s : Settings) :
    ∃ kind ∈ spelledKinds, p.node.kind? = some kind ∧
      (literalOperand kind).read s p = .ok [v.literalText] := by
  unfold Document.literal? at h
  split at h
  case h_1 hkind =>
    split at h
    case isTrue => cases h
    case isFalse hplain =>
      cases h
      obtain ⟨hregex, hbigint⟩ :
          (p.node.get "regex").isObject = false ∧ (p.node.get "bigint").isNull = true := by
        simpa using hplain
      refine ⟨"Literal", List.mem_cons_self, hkind, ?_⟩
      -- Neither a regular expression nor a big integer, so the token is the value itself.
      show Estree.literalToken.read s p = _
      simp only [Estree.literalToken, Token.read, Condition.holds, hregex, hbigint]
      rfl
  case h_2 hkind =>
    cases h
    exact ⟨"StringLiteral", by decide, hkind, rfl⟩
  case h_3 hkind =>
    cases h
    exact ⟨"DirectiveLiteral", by decide, hkind, rfl⟩
  case h_4 hkind =>
    cases h
    exact ⟨"NumericLiteral", by decide, hkind, rfl⟩
  case h_5 hkind =>
    cases h
    refine ⟨"BooleanLiteral", by decide, hkind, ?_⟩
    show (Token.choose (.truthy "value") (.text "true") (.text "false")).read s p = _
    simp only [Token.read, Condition.holds]
    cases (p.node.get "value").truthy <;> rfl
  case h_6 hkind =>
    cases h
    exact ⟨"NullLiteral", by decide, hkind, rfl⟩
  case h_7 => cases h

/-- The rule for such a kind says nothing but the operand. -/
theorem rule_of_spelledKind {d : Dialect} (standard : d ∈ [Estree.dialect, Babel.dialect])
    {kind : String} (hkind : kind ∈ spelledKinds) {rule : Rule} (h : d.rule? kind = some rule) :
    rule = { operands := [literalOperand kind] } := by
  have hestree : Estree.dialect.rule? "Literal" = some { operands := [literalOperand "Literal"] } :=
    rfl
  simp only [spelledKinds, List.mem_cons, List.not_mem_nil, or_false] at hkind
  rcases List.mem_pair.mp standard with rfl | rfl
  · -- ESTree has one kind for all literals.
    rcases hkind with rfl | rfl | rfl | rfl | rfl | rfl
    · exact Option.some.inj (h.symm.trans hestree)
    all_goals cases h
  · rcases hkind with rfl | rfl | rfl | rfl | rfl | rfl
    · rw [Babel.rule?_of_shared (by decide), hestree] at h
      exact (Option.some.inj h).symm
    all_goals exact Option.some.inj (h.symm.trans (Babel.rule?_own rfl))

namespace Dialect

/-- The value of a literal of a kind that the dialect knows. -/
def literal? (d : Dialect) (node : Document) : Option Document :=
  if (d.ruleFor node).isSome then node.literal? else none

variable {d : Dialect}

/-- A literal adds one operand. -/
theorem operands_of_literal (standard : d ∈ [Estree.dialect, Babel.dialect]) (s : Settings)
    {p : Placed} {v : Document} (h : d.literal? p.node = some v) :
    (d.contribution s p).operands = [v.literalText] := by
  unfold literal? at h
  split at h
  case isFalse => cases h
  case isTrue hknown =>
    obtain ⟨rule, hrule⟩ := Option.isSome_iff_exists.mp hknown
    obtain ⟨kind, hspelled, hkind, hread⟩ := read_literalOperand h s
    have hfound : d.rule? kind = some rule := by
      rw [ruleFor, hkind] at hrule
      exact hrule
    rw [rule_of_spelledKind standard hspelled hfound] at hrule
    have hcontribution : ({ operands := [literalOperand kind] } : Rule).read s p =
        .ok { Contribution.nothing with operands := [v.literalText] } := by
      simp only [Rule.read, Token.readAll, hread]
      rfl
    rw [contribution_of_read hrule hcontribution]

/-- Whether a node is a literal with the given text. -/
def spells (d : Dialect) (text : String) (node : Document) : Bool :=
  (d.literal? node).bind Document.text? == some text

/-- How often nodes add a quoted text to the operands. A literal adds it if it has this text, and
other literals do not. Nodes that are no literals may add it as well. -/
def spellings (d : Dialect) (s : Settings) (text : String) (vs : List Occurrence) : Nat :=
  vs.countP (fun o => d.spells text o.place.node) +
    ((vs.filter fun o => (d.literal? o.place.node).isNone).flatMap
      fun o => (d.contribution s o.place).operands).count (Text.quoted text)

theorem spells_iff {text : String} {node v : Document} (h : d.literal? node = some v) :
    d.spells text node ↔ v = .string text := by
  rw [spells, h, Option.bind_some, beq_iff_eq]
  cases v <;> simp [Document.text?]

/-- A literal adds to the number of a quoted text if it has this text. -/
theorem count_operands_of_literal (standard : d ∈ [Estree.dialect, Babel.dialect]) (s : Settings)
    {p : Placed} {v : Document} (h : d.literal? p.node = some v) (text : String) :
    (d.contribution s p).operands.count (Text.quoted text) =
      if d.spells text p.node then 1 else 0 := by
  rw [operands_of_literal standard s h, List.count_singleton]
  by_cases hspells : d.spells text p.node
  · have hv := (spells_iff h).mp hspells
    rw [if_pos hspells, hv]
    exact if_pos (beq_self_eq_true _)
  · have hne : v.literalText ≠ Text.quoted text := by
      intro heq
      exact hspells ((spells_iff h).mpr (Document.literalText_eq_string_iff.mp heq.symm))
    rw [if_neg hspells, if_neg (by simpa using hne)]

end Dialect

/-- Among the operands of a scope, each quoted text has its number. -/
def Scope.SpellsTexts (scope : Scope Int String) (d : Dialect) (s : Settings)
    (vs : List Occurrence) : Prop :=
  ∀ text, scope.operands.count (Text.quoted text) = d.spellings s text vs

/-- A scope that has counted what some nodes contribute tells their texts apart. -/
theorem Scope.Collects.spellsTexts {scope : Scope Int String} {d : Dialect} {s : Settings}
    {base : Int} {vs : List Occurrence} (h : scope.Collects d s base vs)
    (standard : d ∈ [Estree.dialect, Babel.dialect]) : scope.SpellsTexts d s vs := by
  intro text
  rw [h.operands.count, Dialect.spellings]
  clear h
  -- Each node is a literal or not, and it is counted on one side only.
  induction vs with
  | nil => rfl
  | cons o rest ih =>
    rw [List.flatMap_cons, List.count_append, ih, List.countP_cons]
    cases hliteral : d.literal? o.place.node with
    | none =>
      have hspells : d.spells text o.place.node = false := by
        rw [Dialect.spells, hliteral]
        rfl
      rw [List.filter_cons_of_pos (by rw [hliteral]; rfl), List.flatMap_cons, List.count_append,
        hspells]
      simp only [Bool.false_eq_true, if_false]
      omega
    | some v =>
      rw [List.filter_cons_of_neg (by rw [hliteral]; simp),
        Dialect.count_operands_of_literal standard s hliteral]
      omega

/-- Literals are told apart by their texts. Texts that are spelled alike are the same, and no other
value is spelled like a text. So a literal with a text adds the operand of another literal if and
only if that one has the same text. In the module, in every function and in every class, the
operand of a text counts the literals with this text, and no others. -/
theorem Dialect.texts_told_apart :
    (∀ s t : String, (Document.string s).literalText = (Document.string t).literalText → s = t) ∧
    (∀ (s : String) (v : Document), v.isText = false →
      (Document.string s).literalText ≠ v.literalText) ∧
    ∀ d ∈ [Estree.dialect, Babel.dialect], ∀ s : Settings,
      (∀ (p q : Placed) (text : String) (v : Document), d.literal? p.node = some (.string text) →
        d.literal? q.node = some v →
        ((d.contribution s p).operands = (d.contribution s q).operands ↔ v = .string text)) ∧
      ∀ (root : Document) (w : Walk), d.walk s root = .ok w →
        let j := d.journal s root
        w.tree.module.SpellsTexts d s j.visited ∧
        (∀ (k : Nat) (o : Occurrence), (j.opened .function)[k]? = some o →
          ∃ f, w.tree.functions[k]? = some f ∧
            f.SpellsTexts d s (j.visited.filter (·.ownedBy d .function o))) ∧
        ∀ (k : Nat) (o : Occurrence), (j.opened .classBody)[k]? = some o →
          ∃ c, w.tree.classes[k]? = some c ∧
            c.toScope.SpellsTexts d s (j.visited.filter (·.ownedBy d .classBody o)) := by
  refine ⟨?_, ?_, ?_⟩
  · intro s t heq
    exact Document.literalText_string_inj heq
  · intro s v hv
    exact Document.literalText_string_ne s hv
  · intro d standard s
    refine ⟨?_, ?_⟩
    · intro p q text v hp hq
      rw [operands_of_literal standard s hp, operands_of_literal standard s hq, List.cons.injEq,
        Document.literalText_eq_string_iff]
      simp
    · intro root w done j
      have hfunctions := attributesFunctions_of_walk done
      have hclasses := attributesClasses_of_walk done
      refine ⟨hfunctions.module.spellsTexts standard, ?_, ?_⟩
      · intro k o ho
        obtain ⟨f, hf, hbelongs⟩ := hfunctions.functions k o ho
        exact ⟨f, hf, hbelongs.collects.spellsTexts standard⟩
      · intro k o ho
        obtain ⟨c, hc, hbelongs⟩ := hclasses k o ho
        exact ⟨c, hc, hbelongs.collects.spellsTexts standard⟩

namespace Sample

/-- A literal. -/
def literal (value : Document) : Document :=
  node "Literal" [("value", value)]

/-- A module with literals that look alike, some of them in the method of a class. -/
def lookalikes : Document :=
  node "Program"
    [("body", .list
      [literal (.string "1"), literal (.int 1), literal (.string "\"1\""),
       classWith "Reader" "read" (function [] [literal (.string "1"), literal (.float 1.0)]),
       literal (.string "null"), literal .null]),
     ("loc", location)]

end Sample

/-- The text `1` is not the number, nor the text that has quotes of its own. It occurs twice in the
module, and once in the class and in the method. -/
theorem texts_told_apart_lookalikes :
    let text : Placed := { node := Sample.literal (.string "1") }
    let number : Placed := { node := Sample.literal (.int 1) }
    Text.quoted "1" ≠ Text.quoted "\"1\"" ∧
    (Document.string "null").literalText ≠ Document.null.literalText ∧
    (Estree.dialect.contribution {} text).operands ≠
      (Estree.dialect.contribution {} number).operands ∧
    ∃ w, Estree.dialect.walk {} Sample.lookalikes = .ok w ∧
      w.tree.module.operands.count (Text.quoted "1") = 2 ∧
      (∃ f, w.tree.functions[0]? = some f ∧ f.operands.count (Text.quoted "1") = 1) ∧
      ∃ c, w.tree.classes[0]? = some c ∧ c.operands.count (Text.quoted "1") = 1 := by
  intro text number
  let j := Estree.dialect.journal {} Sample.lookalikes
  obtain ⟨hinj, hother, hstandard⟩ := Dialect.texts_told_apart
  obtain ⟨hpair, hwalk⟩ := hstandard Estree.dialect List.mem_cons_self {}
  have hdone : (Estree.dialect.walk {} Sample.lookalikes).toOption.isSome = true := by
    decide +kernel
  obtain ⟨w, hw⟩ := Option.isSome_iff_exists.mp hdone
  have hw := eq_ok_of_toOption hw
  obtain ⟨hmodule, hfunctions, hclasses⟩ := hwalk Sample.lookalikes w hw
  -- How often a text is spelled in a scope is counted over the visits that the scope owns.
  have hmethod : (j.opened .function)[0]?.map (fun o => Estree.dialect.spellings {} "1"
      (j.visited.filter (·.ownedBy Estree.dialect .function o))) = some 1 := by decide +kernel
  have hclass : (j.opened .classBody)[0]?.map (fun o => Estree.dialect.spellings {} "1"
      (j.visited.filter (·.ownedBy Estree.dialect .classBody o))) = some 1 := by decide +kernel
  obtain ⟨o, ho, hone⟩ := Option.map_eq_some_iff.mp hmethod
  obtain ⟨f, hf, hspells⟩ := hfunctions 0 o ho
  obtain ⟨o', ho', honeClass⟩ := Option.map_eq_some_iff.mp hclass
  obtain ⟨c, hc, hspellsClass⟩ := hclasses 0 o' ho'
  refine ⟨?_, hother "null" .null rfl, ?_, w, hw, ?_, ⟨f, hf, (hspells "1").trans hone⟩,
    ⟨c, hc, (hspellsClass "1").trans honeClass⟩⟩
  · intro heq
    exact absurd (hinj _ _ heq) (by decide)
  · intro heq
    cases (hpair text number "1" (.int 1) rfl rfl).mp heq
  · rw [hmodule "1"]
    decide +kernel

end CodeMetrics
