import CodeMetrics.Text.Shown
import Mathlib.Data.List.Forall2
import Mathlib.Tactic.SplitIfs

/-!
# `CodeMetrics.Proofs.Text.Shown`: semicolons between quotes

Parts of a text are joined by semicolons, and a part may hold shown texts with semicolons of their
own. Those stand between quotes. A reader that goes over the characters from the left is outside of
all quotes, between two of them, or behind a backslash there (`Position`). `Whole` are the texts
that lead from outside to outside and have neither a semicolon nor a backslash outside. Every shown
text is whole (`whole_shown`).

Two readers that do not agree on where they are never come to agree that they are outside
(`Clash.not_both_outside`). This is why a part can be told from what stands before it as well as
from what follows: a semicolon in a part stands between quotes, and what follows it there is no
part. `Told.append_semicolon_inj` and `Told.semicolon_append_inj` are the two statements, and
`intercalate_inj` is about many parts, among them one that may be any text.
-/

set_option autoImplicit false

namespace CodeMetrics.Text

/-! ### A reader of shown texts -/

/-- The quotes that shown texts stand between. -/
inductive Quote where
  | single
  | double
  deriving DecidableEq

/-- The character of a quote. -/
def Quote.char : Quote → Char
  | .single => singleQuote
  | .double => doubleQuote

/-- What a character is to a reader. -/
inductive Mark where
  | quote (q : Quote)
  | backslash
  | semicolon
  | other
  deriving DecidableEq

/-- What a character is to a reader. -/
def Mark.ofChar (c : Char) : Mark :=
  if c = singleQuote then .quote .single
  else if c = doubleQuote then .quote .double
  else if c = '\\' then .backslash
  else if c = ';' then .semicolon
  else .other

theorem Mark.ofChar_char (q : Quote) : ofChar q.char = .quote q := by
  cases q with
  | single => rfl
  | double => rfl

/-- Where a reader is. -/
inductive Position where
  | outside
  | inside (q : Quote)
  /-- Behind a backslash between quotes. -/
  | escaped (q : Quote)
  deriving DecidableEq

namespace Position

/-- Where a reader is after another character. Outside there is neither a semicolon nor a
backslash. -/
def next : Position → Mark → Option Position
  | .outside, .quote q => some (.inside q)
  | .outside, .other => some .outside
  | .outside, _ => none
  | .inside q, .quote other => some (if other = q then .outside else .inside q)
  | .inside q, .backslash => some (.escaped q)
  | .inside q, _ => some (.inside q)
  | .escaped q, _ => some (.inside q)

/-- Where a reader is after a text. -/
def after (p : Position) : List Char → Option Position
  | [] => some p
  | c :: rest => (p.next (.ofChar c)).bind fun p => p.after rest

theorem after_append (p : Position) (front rest : List Char) :
    p.after (front ++ rest) = (p.after front).bind fun p => p.after rest := by
  induction front generalizing p with
  | nil => rfl
  | cons c front ih =>
    rw [List.cons_append, after, after, Option.bind_assoc]
    exact Option.bind_congr fun next _ => ih next

/-- Behind a backslash, any character leads back between the quotes. -/
theorem after_escape (q : Quote) (c : Char) (rest : List Char) :
    (inside q).after ('\\' :: c :: rest) = (inside q).after rest := rfl

end Position

open Position

/-! ### Whole texts -/

/-- A text that leads from outside to outside. -/
def Whole (text : List Char) : Prop :=
  outside.after text = some .outside

instance (text : List Char) : Decidable (Whole text) :=
  inferInstanceAs (Decidable (outside.after text = some .outside))

theorem Whole.append {text more : List Char} (h : Whole text) (h' : Whole more) :
    Whole (text ++ more) := by
  rw [Whole, after_append, h]
  exact h'

/-- Whether no character of a text means anything to a reader. -/
def isMild (text : List Char) : Bool :=
  text.all fun c => Mark.ofChar c == .other

theorem isMild_iff {text : List Char} : isMild text ↔ ∀ c ∈ text, Mark.ofChar c = .other := by
  rw [isMild, List.all_eq_true]
  exact forall₂_congr fun c _ => beq_iff_eq

/-- Characters that mean nothing to a reader are whole. -/
theorem whole_of_isMild {text : List Char} (h : isMild text) : Whole text := by
  rw [isMild_iff] at h
  induction text with
  | nil => rfl
  | cons c rest ih =>
    obtain ⟨hc, hrest⟩ := List.forall_mem_cons.mp h
    rw [Whole, after, hc]
    exact ih hrest

/-- Whole texts with a whole text between them. -/
theorem Whole.intercalate {separator : List Char} {texts : List (List Char)}
    (hseparator : Whole separator) (h : ∀ text ∈ texts, Whole text) :
    Whole (separator.intercalate texts) := by
  induction texts with
  | nil => rfl
  | cons text rest ih =>
    obtain ⟨htext, hrest⟩ := List.forall_mem_cons.mp h
    cases rest with
    | nil =>
      rw [List.intercalate_singleton]
      exact htext
    | cons other rest =>
      rw [List.intercalate_cons_cons]
      exact (htext.append hseparator).append (ih hrest)

/-- A hexadecimal digit means nothing to a reader. -/
theorem ofChar_hexDigit {n : Nat} (h : n < 16) : Mark.ofChar (hexDigit n) = .other := by
  have hall : ∀ n < 16, Mark.ofChar (hexDigit n) = .other := by decide
  exact hall n h

/-- What means nothing to a reader leaves it between quotes. -/
theorem after_inside_of_isMild {q : Quote} {text : List Char} (h : isMild text) :
    (inside q).after text = some (.inside q) := by
  rw [isMild_iff] at h
  induction text with
  | nil => rfl
  | cons c rest ih =>
    obtain ⟨hc, hrest⟩ := List.forall_mem_cons.mp h
    rw [after, hc]
    exact ih hrest

theorem after_hexDigits (q : Quote) (width n : Nat) :
    (inside q).after (hexDigits width n) = some (.inside q) := by
  refine after_inside_of_isMild (isMild_iff.mpr ?_)
  induction width generalizing n with
  | zero => exact fun c hc => absurd hc List.not_mem_nil
  | succ width ih =>
    intro c hc
    rcases List.mem_append.mp hc with hc | hc
    · exact ih _ c hc
    · rw [List.mem_singleton.mp hc]
      exact ofChar_hexDigit (Nat.mod_lt n (by decide))

/-- A character that is neither the quote nor a backslash leaves a reader between the quotes. -/
theorem next_inside {q : Quote} {c : Char} (hquote : c ≠ q.char) (hbackslash : c ≠ '\\') :
    (inside q).next (.ofChar c) = some (.inside q) := by
  unfold Mark.ofChar
  split_ifs with hsingle hdouble hsemicolon
  · cases q with
    | single => exact absurd hsingle hquote
    | double => rfl
  · cases q with
    | single => rfl
    | double => exact absurd hdouble hquote
  · rfl
  · rfl

/-- A character of a shown text leaves a reader between the quotes. -/
theorem after_shownChar (q : Quote) (c : Char) :
    (inside q).after (shownChar q.char c) = some (.inside q) := by
  unfold shownChar
  split_ifs with hspecial hnewline hreturn htab hprintable
  · exact after_escape q c []
  · exact after_escape q 'n' []
  · exact after_escape q 'r' []
  · exact after_escape q 't' []
  · rw [not_or] at hspecial
    rw [after, next_inside hspecial.1 hspecial.2]
    rfl
  · unfold shownEscape
    split_ifs
    · exact after_hexDigits q 2 c.toNat
    · exact after_hexDigits q 4 c.toNat
    · exact after_hexDigits q 8 c.toNat

theorem after_flatMap_shownChar (q : Quote) (chars : List Char) :
    (inside q).after (chars.flatMap (shownChar q.char)) = some (.inside q) := by
  induction chars with
  | nil => rfl
  | cons c rest ih =>
    rw [List.flatMap_cons, after_append, after_shownChar]
    exact ih

theorem exists_shownQuote (s : String) : ∃ q : Quote, shownQuote s = q.char := by
  unfold shownQuote
  dsimp only
  split_ifs
  · exact ⟨.double, rfl⟩
  · exact ⟨.single, rfl⟩

/-- A shown text is whole. -/
theorem whole_shown (s : String) : Whole (shown s).toList := by
  obtain ⟨q, hq⟩ := exists_shownQuote s
  have hopen : outside.next (.ofChar q.char) = some (.inside q) := by
    rw [Mark.ofChar_char]
    rfl
  have hclose : (inside q).next (.ofChar q.char) = some .outside := by
    rw [Mark.ofChar_char, next, if_pos rfl]
  unfold shown
  dsimp only
  rw [String.toList_ofList, hq, Whole, after, hopen, Option.bind_some, after_append,
    after_flatMap_shownChar, Option.bind_some, after, hclose]
  rfl

/-! ### Readers that do not agree -/

/-- Two readers that do not agree on the quotes they are between. -/
inductive Clash : Position → Position → Prop
  | outside (q : Quote) : Clash .outside (.inside q)
  | inside (q : Quote) : Clash (.inside q) .outside
  | quotes {q other : Quote} (different : q ≠ other) : Clash (.inside q) (.inside other)
  | escapes {q other : Quote} (different : q ≠ other) : Clash (.escaped q) (.escaped other)

namespace Clash

variable {p q p' q' : Position}

/-- Another character does not make them agree. -/
theorem next {m : Mark} (h : Clash p q) (hp : p.next m = some p') (hq : q.next m = some q') :
    Clash p' q' := by
  cases h with
  | outside quote =>
    cases m with
    | quote met =>
      cases hp
      cases hq
      split_ifs with hmet
      · exact .inside met
      · exact .quotes hmet
    | backslash => cases hp
    | semicolon => cases hp
    | other =>
      cases hp
      cases hq
      exact .outside quote
  | inside quote =>
    cases m with
    | quote met =>
      cases hp
      cases hq
      split_ifs with hmet
      · exact .outside met
      · exact .quotes (Ne.symm hmet)
    | backslash => cases hq
    | semicolon => cases hq
    | other =>
      cases hp
      cases hq
      exact .inside quote
  | @quotes quote other different =>
    cases m with
    | quote met =>
      -- There are only two quotes, but it is enough that one cannot close both.
      cases hp
      cases hq
      split_ifs with hmet hother hother
      · exact absurd (hmet.symm.trans hother) different
      · exact .outside other
      · exact .inside quote
      · exact .quotes different
    | backslash =>
      cases hp
      cases hq
      exact .escapes different
    | _ =>
      cases hp
      cases hq
      exact .quotes different
  | escapes different =>
    cases hp
    cases hq
    exact .quotes different

/-- They never both find themselves outside. -/
theorem not_both_outside {text : List Char} (h : Clash p q) (hp : p.after text = some .outside) :
    q.after text ≠ some .outside := by
  induction text generalizing p q with
  | nil =>
    intro hq
    cases hp
    cases hq
    cases h
  | cons c rest ih =>
    intro hq
    -- Both readers get past the character, and still clash behind it.
    obtain ⟨p', hp', hp⟩ := Option.bind_eq_some_iff.mp hp
    obtain ⟨q', hq', hq⟩ := Option.bind_eq_some_iff.mp hq
    exact ih (h.next hp' hq') hp hq

end Clash

/-! ### Parts -/

/-- Whether a text has neither semicolons nor quotes. -/
def isBare (text : List Char) : Bool :=
  text.all fun c => !([';', singleQuote, doubleQuote].contains c)

theorem ofChar_of_isBare {text : List Char} (h : isBare text) {c : Char} (hc : c ∈ text) :
    Mark.ofChar c = .backslash ∨ Mark.ofChar c = .other := by
  have hmild := List.all_eq_true.mp h c hc
  unfold Mark.ofChar
  split_ifs with hsingle hdouble hbackslash hsemicolon
  · rw [hsingle] at hmild
    exact absurd hmild (by decide)
  · rw [hdouble] at hmild
    exact absurd hmild (by decide)
  · exact .inl rfl
  · rw [hsemicolon] at hmild
    exact absurd hmild (by decide)
  · exact .inr rfl

theorem isBare_of_isMild {text : List Char} (h : isMild text) : isBare text := by
  refine List.all_eq_true.mpr fun c hc => ?_
  have hother := isMild_iff.mp h c hc
  by_contra hspecial
  rw [Bool.not_eq_true, Bool.not_eq_false', List.contains_iff_mem] at hspecial
  have hmarks : [';', singleQuote, doubleQuote].all fun c => Mark.ofChar c != .other := by decide
  have hmark := List.all_eq_true.mp hmarks c hspecial
  rw [hother] at hmark
  cases hmark

theorem isBare_tail {c : Char} {rest : List Char} (h : isBare (c :: rest)) : isBare rest :=
  List.all_eq_true.mpr fun other hother =>
    List.all_eq_true.mp h other (List.mem_cons_of_mem c hother)

/-- A reader that gets through a bare text from outside stays there. -/
theorem after_outside_of_isBare {text : List Char} {p : Position} (hbare : isBare text)
    (h : outside.after text = some p) : p = .outside := by
  induction text with
  | nil => exact (Option.some.inj h).symm
  | cons c rest ih =>
    rw [after] at h
    rcases ofChar_of_isBare hbare List.mem_cons_self with hc | hc
    · rw [hc] at h
      cases h
    · rw [hc] at h
      exact ih (isBare_tail hbare) h

/-- A bare text has no quote, so it does not lead to outside from anywhere else. -/
theorem after_ne_outside_of_isBare {text : List Char} (hbare : isBare text) {p : Position}
    (hp : p ≠ .outside) : p.after text ≠ some .outside := by
  induction text generalizing p with
  | nil => exact fun h => hp (Option.some.inj h)
  | cons c rest ih =>
    have hstays : ∃ next ≠ Position.outside, p.next (.ofChar c) = some next := by
      rcases ofChar_of_isBare hbare List.mem_cons_self with hc | hc
      all_goals
        rw [hc]
        cases p with
        | outside => exact absurd rfl hp
        | inside q => exact ⟨_, Position.noConfusion, rfl⟩
        | escaped q => exact ⟨_, Position.noConfusion, rfl⟩
    obtain ⟨next, hnext, heq⟩ := hstays
    rw [after, heq]
    exact ih (isBare_tail hbare) hnext

/-- What can stand between two semicolons and be told from the rest. -/
def Part (text : List Char) : Prop :=
  Whole text ∨ isBare text

namespace Part

variable {text other front rest : List Char}

/-- Characters that mean nothing to a reader may come before a part. -/
theorem append_left (h : Part rest) (hfront : isMild front) : Part (front ++ rest) := by
  rcases h with hwhole | hbare
  · exact .inl ((whole_of_isMild hfront).append hwhole)
  · refine .inr ?_
    rw [isBare, List.all_append, Bool.and_eq_true]
    exact ⟨isBare_of_isMild hfront, hbare⟩

/-- A reader that gets through a part is outside. -/
theorem eq_outside (h : Part text) {p : Position} (hafter : outside.after text = some p) :
    p = .outside := by
  rcases h with hwhole | hbare
  · exact (Option.some.inj (hwhole.symm.trans hafter)).symm
  · exact after_outside_of_isBare hbare hafter

/-- A part does not lead from between quotes to outside. -/
theorem after_inside_ne_outside (h : Part text) (q : Quote) :
    (inside q).after text ≠ some .outside := by
  rcases h with hwhole | hbare
  · exact (Clash.outside q).not_both_outside hwhole
  · exact after_ne_outside_of_isBare hbare Position.noConfusion

/-- A semicolon in a part stands between quotes. -/
theorem of_semicolon (h : Part (front ++ ';' :: rest)) :
    ∃ p q, outside.after front = some p ∧ p ≠ .outside ∧
      (inside q).after rest = some .outside := by
  rcases h with hwhole | hbare
  · rw [Whole, after_append] at hwhole
    obtain ⟨p, hfront, hrest⟩ := Option.bind_eq_some_iff.mp hwhole
    refine ⟨p, ?_⟩
    cases p with
    -- Outside, the semicolon would have stopped the reader.
    | outside => cases hrest
    | inside q => exact ⟨q, hfront, Position.noConfusion, hrest⟩
    | escaped q => exact ⟨q, hfront, Position.noConfusion, hrest⟩
  · simp [isBare] at hbare

/-- A part ends before the semicolon that follows it. -/
theorem not_append_semicolon (h : Part front) : ¬Part (front ++ ';' :: rest) := by
  intro hlong
  obtain ⟨p, q, hafter, houtside, -⟩ := hlong.of_semicolon
  exact houtside (h.eq_outside hafter)

/-- A part begins behind the semicolon before it. -/
theorem not_semicolon_append (h : Part rest) : ¬Part (front ++ ';' :: rest) := by
  intro hlong
  obtain ⟨p, q, -, -, hafter⟩ := hlong.of_semicolon
  exact h.after_inside_ne_outside q hafter

end Part

/-- If a text can be split at a semicolon in two ways, one of the semicolons comes first. -/
theorem semicolon_cases {l l' r r' : List Char} (h : l ++ ';' :: r = l' ++ ';' :: r') :
    (l = l' ∧ r = r') ∨
    (∃ gap, l' = l ++ ';' :: gap ∧ r = gap ++ ';' :: r') ∨
    (∃ gap, l = l' ++ ';' :: gap ∧ r' = gap ++ ';' :: r) := by
  rcases List.append_eq_append_iff.mp h with ⟨gap, rfl, hgap⟩ | ⟨gap, rfl, hgap⟩
  · cases gap with
    | nil =>
      cases hgap
      exact .inl ⟨(List.append_nil l).symm, rfl⟩
    | cons c gap =>
      cases hgap
      exact .inr (.inl ⟨gap, rfl, rfl⟩)
  · cases gap with
    | nil =>
      cases hgap
      exact .inl ⟨List.append_nil l', rfl⟩
    | cons c gap =>
      cases hgap
      exact .inr (.inr ⟨gap, rfl, rfl⟩)

/-- Texts that are the same, or two parts. -/
def Told (text other : List Char) : Prop :=
  text = other ∨ Part text ∧ Part other

namespace Told

variable {text other : List Char}

/-- What stands before a semicolon can be told from what follows. -/
theorem append_semicolon_inj {r r' : List Char} (h : Told text other)
    (heq : text ++ ';' :: r = other ++ ';' :: r') : text = other ∧ r = r' := by
  rcases h with rfl | ⟨htext, hother⟩
  · exact ⟨rfl, (List.cons.inj (List.append_cancel_left heq)).2⟩
  · rcases semicolon_cases heq with hsame | ⟨gap, rfl, -⟩ | ⟨gap, rfl, -⟩
    · exact hsame
    · exact absurd hother htext.not_append_semicolon
    · exact absurd htext hother.not_append_semicolon

/-- What stands behind a semicolon can be told from what is before it. -/
theorem semicolon_append_inj {l l' : List Char} (h : Told text other)
    (heq : l ++ ';' :: text = l' ++ ';' :: other) : l = l' ∧ text = other := by
  rcases h with rfl | ⟨htext, hother⟩
  · exact ⟨List.append_cancel_right heq, rfl⟩
  · rcases semicolon_cases heq with hsame | ⟨gap, -, rfl⟩ | ⟨gap, -, rfl⟩
    · exact hsame
    · exact absurd htext hother.not_semicolon_append
    · exact absurd hother htext.not_semicolon_append

end Told

/-- The last part comes behind a semicolon. -/
theorem intercalate_concat (first : List Char) (rest : List (List Char)) (last : List Char) :
    [';'].intercalate (first :: (rest ++ [last])) =
      [';'].intercalate (first :: rest) ++ ';' :: last := by
  induction rest generalizing first with
  | nil => simp
  | cons second rest ih =>
    rw [List.cons_append, List.intercalate_cons_cons, ih, List.intercalate_cons_cons,
      List.append_assoc (first ++ [';'])]

/-- What parts follow can be told from them. -/
theorem intercalate_reverse_inj {texts others : List (List Char)} {first first' : List Char}
    (h : List.Forall₂ Told texts others)
    (heq : [';'].intercalate (first :: texts.reverse) =
      [';'].intercalate (first' :: others.reverse)) : first = first' ∧ texts = others := by
  -- From the last part to the first, since each one is told from what stands before it.
  induction h with
  | nil =>
    rw [List.reverse_nil, List.intercalate_singleton, List.intercalate_singleton] at heq
    exact ⟨heq, rfl⟩
  | @cons text other texts others htold _ ih =>
    rw [List.reverse_cons, List.reverse_cons, intercalate_concat, intercalate_concat] at heq
    obtain ⟨hfront, hlast⟩ := htold.semicolon_append_inj heq
    obtain ⟨hfirst, hrest⟩ := ih hfront
    exact ⟨hfirst, by rw [hlast, hrest]⟩

/-- Texts that are joined by semicolons can be told from the joined text, if all but one are
parts. -/
theorem intercalate_inj {before before' behind behind' : List (List Char)}
    {text text' : List Char} (hbefore : List.Forall₂ Told before before')
    (hbehind : List.Forall₂ Told behind behind')
    (heq : [';'].intercalate (before ++ text :: behind) =
      [';'].intercalate (before' ++ text' :: behind')) :
    before = before' ∧ text = text' ∧ behind = behind' := by
  induction hbefore with
  | nil =>
    rw [← List.reverse_reverse behind, ← List.reverse_reverse behind'] at heq
    obtain ⟨htext, hrest⟩ :=
      intercalate_reverse_inj (List.forall₂_reverse_iff.mpr hbehind) heq
    exact ⟨rfl, htext, List.reverse_injective hrest⟩
  | @cons first first' rest rest' htold _ ih =>
    rw [List.cons_append, List.cons_append,
      List.intercalate_cons_of_ne_nil (List.append_ne_nil_of_right_ne_nil _ (List.cons_ne_nil _ _)),
      List.intercalate_cons_of_ne_nil (List.append_ne_nil_of_right_ne_nil _ (List.cons_ne_nil _ _)),
      List.append_assoc, List.append_assoc] at heq
    obtain ⟨hfirst, hrest⟩ := htold.append_semicolon_inj heq
    obtain ⟨hbefore, hthere⟩ := ih hrest
    exact ⟨by rw [hfirst, hbefore], hthere⟩

end CodeMetrics.Text
