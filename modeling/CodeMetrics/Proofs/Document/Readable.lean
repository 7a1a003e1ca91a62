import CodeMetrics.Proofs.Document.Canonical
import CodeMetrics.Proofs.Text.Shown

/-!
# `CodeMetrics.Proofs.Document.Readable`: what a displayed value tells

A value that is displayed is easily mistaken for a text, since a text on its own is not quoted.
Other values are not mistaken for one another in what counts: what is displayed says whether the
value is set (`truthy_eq_false_iff`), and where it ends (`whole_write`).

`unmistakable` are the values that are no texts, and the texts that are displayed like nothing else
that is not set and have neither a semicolon nor a quote. Among them, values that are displayed
alike are set alike (`truthy_eq_of_display_eq`).
-/

set_option autoImplicit false

namespace CodeMetrics

/-! ### Zero -/

section

open Float.Model

/-- Only zeros compare equal to zero. -/
theorem exists_zero_of_compare {x : UnpackedFloat} {sign : UnpackedFloat.Sign}
    (h : x.compare (.zero sign) = some .eq) : ∃ s, x = .zero s := by
  cases x with
  | zero s => exact ⟨s, rfl⟩
  | notANumber => cases h
  | infinity s => cases s <;> cases h
  | finite s => cases s <;> cases h

/-- A zero has no bits but the one of its sign. -/
theorem toNat_mod_of_unpack_zero {bits : BitVec Format.binary64.numBits}
    {sign : UnpackedFloat.Sign} (h : UnpackedFloat.unpack Format.binary64 bits = .zero sign) :
    bits.toNat % 2 ^ 63 = 0 := by
  unfold UnpackedFloat.unpack at h
  dsimp only at h
  -- Each test of `unpack` that another sort of number would pass has to fail.
  have hfinite : ¬ UnpackedFloat.unpackExponent bits = -1#11 := by
    intro hinfinite
    rw [if_pos hinfinite] at h
    split at h <;> cases h
  rw [if_neg hfinite] at h
  have hscale : UnpackedFloat.unpackExponent bits = 0#11 := by
    by_contra hnormal
    rw [if_neg hnormal] at h
    cases h
  rw [if_pos hscale] at h
  have hfraction : UnpackedFloat.unpackMantissa bits = 0#52 := by
    by_contra hsubnormal
    rw [dif_neg hsubnormal] at h
    cases h
  have hlow : bits.toNat % 2 ^ 52 = 0 := by
    simpa [UnpackedFloat.unpackMantissa] using congrArg BitVec.toNat hfraction
  have hhigh : (bits.toNat >>> 52) % 2 ^ 11 = 0 := by
    simpa [UnpackedFloat.unpackExponent] using congrArg BitVec.toNat hscale
  rw [Nat.shiftRight_eq_div_pow] at hhigh
  omega

end

/-- There are two zeros. -/
theorem eq_zero_of_beq {x : Float} (h : (x == 0.0) = true) : x = 0.0 ∨ x = -0.0 := by
  have hcompare : x.toModel.unpack.compare (.zero .positive) = some .eq := beq_iff_eq.mp h
  obtain ⟨sign, hzero⟩ := exists_zero_of_compare hcompare
  have hbits : x.toBits.toNat % 2 ^ 63 = 0 := toNat_mod_of_unpack_zero hzero
  have hbound := x.toBits.toNat_lt
  have hsame : ∀ y : Float, x.toBits.toNat = y.toBits.toNat → x = y := by
    intro y hy
    apply Binary.ofFloat_injective
    rw [Binary.ofFloat, hy]
    rfl
  -- The bit that is left is the sign.
  rcases Nat.lt_or_ge x.toBits.toNat (2 ^ 63) with hpositive | hnegative
  · have hzero : (0.0 : Float).toBits.toNat = 0 := by decide +kernel
    exact .inl (hsame _ (by omega))
  · have hzero : (-0.0 : Float).toBits.toNat = 2 ^ 63 := by decide +kernel
    exact .inr (hsame _ (by omega))

namespace Document

open Text

/-! ### Where a displayed value ends -/

/-- A character of a number means nothing to a reader of quotes. -/
theorem ofChar_of_isNumeral {c : Char} (h : Decimal.isNumeral c) : Mark.ofChar c = .other := by
  unfold Mark.ofChar
  split_ifs with hsingle hdouble hbackslash hsemicolon
  · rw [hsingle] at h
    exact absurd h (by decide)
  · rw [hdouble] at h
    exact absurd h (by decide)
  · rw [hbackslash] at h
    exact absurd h (by decide)
  · rw [hsemicolon] at h
    exact absurd h (by decide)
  · rfl

theorem whole_of_isNumeral {text : List Char} (h : ∀ c ∈ text, Decimal.isNumeral c) :
    Whole text :=
  whole_of_isMild (isMild_iff.mpr fun c hc => ofChar_of_isNumeral (h c hc))

theorem whole_list {items : List Document}
    (h : ∀ d ∈ items, Whole (write readable d).toList) :
    Whole (write readable (.list items)).toList := by
  rw [write, String.toList_append, String.toList_append, String.toList_intercalate, writeItems_eq,
    List.map_map]
  refine Whole.append (Whole.append (by decide) (Whole.intercalate (by decide) ?_)) (by decide)
  exact List.forall_mem_map.mpr h

theorem whole_object {fields : List (String × Document)}
    (h : ∀ field ∈ fields, Whole (write readable field.2).toList) :
    Whole (write readable (.object fields)).toList := by
  rw [write, String.toList_append, String.toList_append, String.toList_intercalate, writeFields_eq,
    List.map_map]
  refine Whole.append (Whole.append (by decide) (Whole.intercalate (by decide) ?_)) (by decide)
  refine List.forall_mem_map.mpr fun field hfield => ?_
  rw [Function.comp, String.toList_append, String.toList_append]
  exact ((whole_shown field.1).append (by decide)).append (h field hfield)

mutual

/-- Semicolons in the text of a value stand between quotes. -/
theorem whole_write : (d : Document) → Whole (write readable d).toList
  | .null => rfl
  | .bool true => rfl
  | .bool false => rfl
  | .int n => whole_of_isNumeral (isNumeral_intText n)
  | .float x => whole_of_isNumeral (isNumeral_floatText x)
  | .string s => whole_shown s
  | .list items => whole_list (whole_writeItems items)
  | .object fields => whole_object (whole_writeFields fields)

theorem whole_writeItems : (items : List Document) → ∀ d ∈ items, Whole (write readable d).toList
  | [] => List.forall_mem_nil _
  | d :: rest => List.forall_mem_cons.mpr ⟨whole_write d, whole_writeItems rest⟩

theorem whole_writeFields : (fields : List (String × Document)) →
    ∀ field ∈ fields, Whole (write readable field.2).toList
  | [] => List.forall_mem_nil _
  | (_, d) :: rest => List.forall_mem_cons.mpr ⟨whole_write d, whole_writeFields rest⟩

end

/-! ### Whether a displayed value is set -/

/-- What is displayed for the values that are no texts and not set. -/
def unsetWords : List String :=
  ["None", "False", "0", "0.0", "-0.0", "[]", "\x7b\x7d"]

/-- Whether a value is a text. -/
def isText : Document → Bool
  | .string _ => true
  | _ => false

/-- The numbers among those words. -/
theorem number_of_mem_unsetWords : ∀ word ∈ unsetWords, word.toList.all Decimal.isNumeral →
    word = Decimal.intText 0 ∨ word = Decimal.floatText floatStyle 0.0 ∨
      word = Decimal.floatText floatStyle (-0.0) := by
  decide +kernel

/-- The collections among those words have nothing between their brackets. -/
theorem length_of_mem_unsetWords : ∀ word ∈ unsetWords, ∀ bracket ∈ ["[", "\x7b"],
    bracket.toList <+: word.toList → word.length = 2 := by
  decide

theorem intText_mem_unsetWords {n : Int} (h : Decimal.intText n ∈ unsetWords) : n = 0 := by
  have hnumeral := List.all_eq_true.mpr (isNumeral_intText n)
  rcases number_of_mem_unsetWords _ h hnumeral with hword | hword | hword
  · exact Decimal.intText_injective hword
  · exact absurd hword (Decimal.intText_ne_floatText n _ _)
  · exact absurd hword (Decimal.intText_ne_floatText n _ _)

theorem floatText_mem_unsetWords {x : Float} (h : Decimal.floatText floatStyle x ∈ unsetWords) :
    (x == 0.0) = true := by
  have hnumeral := List.all_eq_true.mpr (isNumeral_floatText x)
  rcases number_of_mem_unsetWords _ h hnumeral with hword | hword | hword
  · exact absurd hword.symm (Decimal.intText_ne_floatText 0 _ _)
  · rw [Decimal.floatText_injective hword]
    decide +kernel
  · rw [Decimal.floatText_injective hword]
    decide +kernel

/-- Something stands for each value. -/
theorem write_ne_nil (d : Document) : (write readable d).toList ≠ [] := by
  cases d with
  | null => decide
  | bool value => cases value <;> decide
  | int n =>
    obtain ⟨c, rest, htext, -⟩ := leads_write (.int n)
    exact fun h => List.cons_ne_nil c rest (htext.symm.trans h)
  | float x =>
    obtain ⟨c, rest, htext, -⟩ := leads_write (.float x)
    exact fun h => List.cons_ne_nil c rest (htext.symm.trans h)
  | string s => simp [write, readable, Text.shown]
  | list items => simp [write]
  | object fields => simp [write]

/-- A collection that is displayed with something between its brackets is set. -/
theorem brackets_not_mem_unsetWords {bracket closer text : String} {texts : List String}
    (hbracket : bracket ∈ ["[", "\x7b"]) (hcloser : 0 < closer.length) (htext : text.toList ≠ []) :
    bracket ++ ", ".intercalate (text :: texts) ++ closer ∉ unsetWords := by
  intro hmem
  have hfront : bracket.toList <+:
      (bracket ++ ", ".intercalate (text :: texts) ++ closer).toList := by
    rw [String.toList_append, String.toList_append, List.append_assoc]
    exact List.prefix_append _ _
  -- The words that begin with a bracket are the empty collections, of two characters each.
  have hlength := length_of_mem_unsetWords _ hmem bracket hbracket hfront
  have hopener : bracket.length = 1 := by
    have hall : ∀ bracket ∈ ["[", "\x7b"], bracket.length = 1 := by decide
    exact hall bracket hbracket
  have hinner : 0 < (", ".intercalate (text :: texts)).length := by
    obtain ⟨first, rest, hfirst⟩ := List.exists_cons_of_ne_nil htext
    rw [← String.length_toList, String.toList_intercalate, List.map_cons, hfirst,
      List.intercalate_cons_cons_left]
    exact Nat.succ_pos _
  rw [String.length_append, String.length_append] at hlength
  omega

/-- Apart from texts, what is displayed says whether a value is set. -/
theorem truthy_eq_false_iff {d : Document} (h : d.isText = false) :
    d.truthy = false ↔ d.display ∈ unsetWords := by
  cases d with
  | null => decide
  | bool value => cases value <;> decide
  | int n =>
    refine ⟨fun hzero => ?_, fun hmem => ?_⟩
    · have hn : n = 0 := by simpa [truthy] using hzero
      rw [hn]
      decide
    · rw [intText_mem_unsetWords hmem]
      rfl
  | float x =>
    refine ⟨fun hzero => ?_, fun hmem => ?_⟩
    · have hx : (x == 0.0) = true := by simpa [truthy] using hzero
      -- Both zeros are equal to `0.0`, and their texts differ.
      rcases eq_zero_of_beq hx with rfl | rfl
      · decide +kernel
      · decide +kernel
    · rw [truthy, floatText_mem_unsetWords hmem]
      rfl
  | string s => cases h
  | list items =>
    cases items with
    | nil => decide
    | cons d rest =>
      refine iff_of_false (by simp [truthy]) ?_
      exact brackets_not_mem_unsetWords (by decide) (by decide) (write_ne_nil d)
  | object fields =>
    cases fields with
    | nil => decide
    | cons field rest =>
      refine iff_of_false (by simp [truthy]) ?_
      exact brackets_not_mem_unsetWords (by decide) (by decide) (by simp [readable])

/-! ### Values that are not mistaken -/

/-- Whether a value is not mistaken for another one when it is displayed: it is no text, or a text
that no unset value is displayed as and that has neither semicolons nor quotes. -/
def unmistakable : Document → Bool
  | .string s => !(unsetWords.contains s) && isBare s.toList
  | _ => true

/-- The displayed text of such a value can be told from what stands around it. -/
theorem part_display {d : Document} (h : d.unmistakable) : Part d.display.toList := by
  cases d with
  | string s => exact .inr (Bool.and_eq_true_iff.mp h).2
  | _ => exact .inl (whole_write _)

/-- What is displayed for such a value says whether it is set. -/
theorem truthy_eq_false_iff_of_unmistakable {d : Document} (h : d.unmistakable) :
    d.truthy = false ↔ d.display = "" ∨ d.display ∈ unsetWords := by
  cases hd : d.isText with
  | true =>
    cases d with
    | string s =>
      have hmem : s ∉ unsetWords := by simpa using (Bool.and_eq_true_iff.mp h).1
      simp [truthy, display, hmem]
    | _ => cases hd
  | false =>
    -- Nothing but an empty text is displayed as one.
    have hdisplay : d.display ≠ "" := by
      cases d with
      | string s => cases hd
      | _ => exact fun hempty => write_ne_nil _ (congrArg String.toList hempty)
    rw [truthy_eq_false_iff hd]
    simp [hdisplay]

/-- Values that are displayed alike are set alike. -/
theorem truthy_eq_of_display_eq {a b : Document} (h : a = b ∨ a.unmistakable ∧ b.unmistakable)
    (hdisplay : a.display = b.display) : a.truthy = b.truthy := by
  rcases h with rfl | ⟨ha, hb⟩
  · rfl
  · have hfalse : a.truthy = false ↔ b.truthy = false := by
      rw [truthy_eq_false_iff_of_unmistakable ha, truthy_eq_false_iff_of_unmistakable hb, hdisplay]
    exact Bool.eq_iff_iff.mpr (by simpa using not_congr hfalse)

end Document

end CodeMetrics
