import CodeMetrics.Document.Writer
import CodeMetrics.Proofs.Decimal.Text
import CodeMetrics.Proofs.Document.Reordering
import CodeMetrics.Proofs.Text.Quoted
import Mathlib.Data.List.Perm.Basic

/-!
# `CodeMetrics.Proofs.Document.Canonical`: what canonical texts tell apart

Documents have the same canonical text if and only if they differ in the order of keys at most
(`canonical_eq_iff_reordered`), provided that no object has a key twice.

Compact texts are unambiguous: in whatever a document is followed by, the document and the rest
can be told from the characters (`Unambiguous`). The first character says what sort of value it
is. Texts, lists and objects say where they end, and a number ends where no more of its characters
come. So documents with the same canonical text are the same after their keys have been sorted,
and sorting the keys moves fields and nothing else (`reordered_of_canonical_eq`). In the other
direction, keys that are all different can be sorted in one way only (`canonical_eq_of_reordered`).
-/

set_option autoImplicit false

namespace CodeMetrics.Document

/-! ### The first character -/

/-- The sorts of values that can be told apart by one character. -/
inductive Lead where
  | null
  | bool
  | number
  | string
  | list
  | object
  /-- No value begins like that. -/
  | other
  deriving DecidableEq

/-- The sort of the values whose texts begin with a character. -/
def Lead.ofChar (c : Char) : Lead :=
  match c.toNat with
  | 0x6e => .null
  | 0x74 | 0x66 => .bool
  | 0x22 => .string
  | 0x5b => .list
  | 0x7b => .object
  | code => if code = 0x2d ∨ 0x30 ≤ code ∧ code ≤ 0x39 then .number else .other

/-- The sort of a document. -/
def lead : Document → Lead
  | .null => .null
  | .bool _ => .bool
  | .int _ | .float _ => .number
  | .string _ => .string
  | .list _ => .list
  | .object _ => .object

/-- A text begins with a character of the given sort. -/
def Leads (kind : Lead) (text : List Char) : Prop :=
  ∃ c rest, text = c :: rest ∧ Lead.ofChar c = kind

theorem leads_signed (negative : Bool) {text : List Char} (h : Decimal.StartsWithDigit text) :
    Leads .number (Decimal.signed negative text) := by
  obtain ⟨c, rest, rfl, hc⟩ := h
  cases negative with
  | true => exact ⟨'-', c :: rest, rfl, rfl⟩
  | false =>
    refine ⟨c, rest, rfl, ?_⟩
    have hrange : 0x30 ≤ c.toNat ∧ c.toNat ≤ 0x39 := by
      simpa [Char.isDigit, UInt32.le_iff_toNat_le] using hc
    unfold Lead.ofChar
    split
    case h_7 => exact if_pos (.inr hrange)
    all_goals omega

/-- The first character of a text says of which sort the document is. -/
theorem leads_write (d : Document) : Leads d.lead (write compact d).toList := by
  cases d with
  | null => exact ⟨'n', ['u', 'l', 'l'], rfl, rfl⟩
  | bool b =>
    cases b with
    | true => exact ⟨'t', ['r', 'u', 'e'], rfl, rfl⟩
    | false => exact ⟨'f', ['a', 'l', 's', 'e'], rfl, rfl⟩
  | int n =>
    rw [write, Decimal.toList_intText]
    exact leads_signed _ (Decimal.startsWithDigit_toDigits _)
  | float x =>
    show Leads .number (Decimal.floatText floatStyle x).toList
    rw [Decimal.toList_floatText]
    exact leads_signed _ (Decimal.startsWithDigit_written _ _)
  | string s =>
    show Leads .string (Text.quotedAscii s).toList
    rw [Text.quotedAscii, Text.quoteWith, String.toList_ofList]
    exact ⟨_, _, rfl, rfl⟩
  | list items =>
    rw [write, String.toList_append, String.toList_append]
    exact ⟨_, _, rfl, rfl⟩
  | object fields =>
    rw [write, String.toList_append, String.toList_append]
    exact ⟨_, _, rfl, rfl⟩

/-- Texts that go on to be the same are of the same sort. -/
theorem lead_eq {a b : Document} {r r' : List Char}
    (h : (write compact a).toList ++ r = (write compact b).toList ++ r') : a.lead = b.lead := by
  obtain ⟨c, rest, ha, hc⟩ := leads_write a
  obtain ⟨c', rest', hb, hc'⟩ := leads_write b
  rw [ha, hb, List.cons_append, List.cons_append] at h
  rw [← hc, ← hc', (List.cons.inj h).1]

/-! ### Unambiguous texts -/

/-- No number goes on into the rest. -/
def Ends (rest : List Char) : Prop :=
  rest.takeWhile Decimal.isNumeral = []

theorem ends_cons {c : Char} (h : Decimal.isNumeral c = false) (rest : List Char) :
    Ends (c :: rest) := by
  rw [Ends, List.takeWhile_cons, h]
  rfl

/-- A document and the rest can be told from the characters. -/
def Unambiguous (a : Document) : Prop :=
  ∀ (b : Document) (r r' : List Char), Ends r → Ends r' →
    (write compact a).toList ++ r = (write compact b).toList ++ r' → a = b ∧ r = r'

/-- A number ends where no more of its characters come. -/
theorem numeral_append_inj {t t' r r' : List Char} (ht : ∀ c ∈ t, Decimal.isNumeral c)
    (ht' : ∀ c ∈ t', Decimal.isNumeral c) (hr : Ends r) (hr' : Ends r')
    (h : t ++ r = t' ++ r') : t = t' ∧ r = r' := by
  have hfront := congrArg (List.takeWhile Decimal.isNumeral) h
  rw [List.takeWhile_append_of_pos ht, List.takeWhile_append_of_pos ht', hr, hr',
    List.append_nil, List.append_nil] at hfront
  subst hfront
  exact ⟨rfl, List.append_cancel_left h⟩

theorem isNumeral_signed {negative : Bool} {text : List Char}
    (h : ∀ c ∈ text, Decimal.isNumeral c) :
    ∀ c ∈ Decimal.signed negative text, Decimal.isNumeral c := by
  cases negative with
  | true => exact List.forall_mem_cons.mpr ⟨by decide, h⟩
  | false => exact h

theorem isNumeral_intText (n : Int) : ∀ c ∈ (Decimal.intText n).toList, Decimal.isNumeral c := by
  rw [Decimal.toList_intText]
  exact isNumeral_signed fun c hc => Decimal.isNumeral_toDigits hc

theorem isNumeral_floatText (x : Float) :
    ∀ c ∈ (Decimal.floatText floatStyle x).toList, Decimal.isNumeral c := by
  rw [Decimal.toList_floatText]
  exact isNumeral_signed fun c hc => Decimal.isNumeral_written hc

theorem unambiguous_null : Unambiguous .null := by
  intro b r r' _ _ h
  have hlead := lead_eq h
  cases b with
  | null => exact ⟨rfl, List.append_cancel_left h⟩
  | _ => cases hlead

theorem unambiguous_bool (value : Bool) : Unambiguous (.bool value) := by
  intro b r r' _ _ h
  have hlead := lead_eq h
  cases b with
  | bool value' =>
    cases value <;> cases value'
    · exact ⟨rfl, List.append_cancel_left h⟩
    · exact absurd (List.cons.inj h).1 (by decide)
    · exact absurd (List.cons.inj h).1 (by decide)
    · exact ⟨rfl, List.append_cancel_left h⟩
  | _ => cases hlead

theorem unambiguous_int (n : Int) : Unambiguous (.int n) := by
  intro b r r' hr hr' h
  have hlead := lead_eq h
  cases b with
  | int m =>
    obtain ⟨htext, hrest⟩ :=
      numeral_append_inj (isNumeral_intText n) (isNumeral_intText m) hr hr' h
    exact ⟨by rw [Decimal.intText_injective (String.toList_inj.mp htext)], hrest⟩
  | float x =>
    obtain ⟨htext, -⟩ :=
      numeral_append_inj (isNumeral_intText n) (isNumeral_floatText x) hr hr' h
    exact absurd (String.toList_inj.mp htext) (Decimal.intText_ne_floatText _ _ _)
  | _ => cases hlead

theorem unambiguous_float (x : Float) : Unambiguous (.float x) := by
  intro b r r' hr hr' h
  have hlead := lead_eq h
  cases b with
  | int m =>
    obtain ⟨htext, -⟩ :=
      numeral_append_inj (isNumeral_floatText x) (isNumeral_intText m) hr hr' h
    exact absurd (String.toList_inj.mp htext).symm (Decimal.intText_ne_floatText _ _ _)
  | float y =>
    obtain ⟨htext, hrest⟩ :=
      numeral_append_inj (isNumeral_floatText x) (isNumeral_floatText y) hr hr' h
    exact ⟨by rw [Decimal.floatText_injective (String.toList_inj.mp htext)], hrest⟩
  | _ => cases hlead

theorem unambiguous_string (s : String) : Unambiguous (.string s) := by
  intro b r r' _ _ h
  have hlead := lead_eq h
  cases b with
  | string s' =>
    obtain ⟨htext, hrest⟩ := Text.quotedAscii_append_inj h
    exact ⟨by rw [htext], hrest⟩
  | _ => cases hlead

/-! ### Sequences -/

section

variable {α : Type} (w : α → List Char) (closer : Char)

/-- What comes behind the first of several texts with commas between them: the others, and then
the end of the sequence. -/
def behind (r : List Char) : List α → List Char
  | [] => closer :: r
  | x :: xs => ',' :: (w x ++ behind r xs)

theorem separated_cons (r : List Char) (x : α) (xs : List α) :
    [','].intercalate ((x :: xs).map w) ++ closer :: r = w x ++ behind w closer r xs := by
  induction xs generalizing x with
  | nil => simp [behind]
  | cons y ys ih =>
    rw [List.map_cons, List.map_cons, List.intercalate_cons_cons, ← List.map_cons,
      List.append_assoc, List.append_assoc, ih, behind]
    rfl

variable {w closer}

theorem ends_behind (hcloser : Decimal.isNumeral closer = false) (r : List Char) (xs : List α) :
    Ends (behind w closer r xs) := by
  cases xs with
  | nil => exact ends_cons hcloser r
  | cons x xs => exact ends_cons (by decide) _

/-- The texts of a sequence and the rest can be told apart, if each text can and none begins as
the sequence ends. -/
theorem separated_inj (hcloser : Decimal.isNumeral closer = false) (hcomma : closer ≠ ',')
    (hstart : ∀ y rest rest', w y ++ rest ≠ closer :: rest') {xs ys : List α}
    (hw : ∀ x ∈ xs, ∀ (y : α) (r r' : List Char), Ends r → Ends r' → w x ++ r = w y ++ r' →
      x = y ∧ r = r') {r r' : List Char}
    (h : [','].intercalate (xs.map w) ++ closer :: r =
      [','].intercalate (ys.map w) ++ closer :: r') : xs = ys ∧ r = r' := by
  -- The induction is on what follows the first text, where each further text has its comma in
  -- front.
  have hbehind : ∀ {xs ys : List α}, (∀ x ∈ xs, ∀ (y : α) (r r' : List Char), Ends r → Ends r' →
      w x ++ r = w y ++ r' → x = y ∧ r = r') →
      behind w closer r xs = behind w closer r' ys → xs = ys ∧ r = r' := by
    intro xs
    induction xs with
    | nil =>
      intro ys _ h
      cases ys with
      | nil => exact ⟨rfl, (List.cons.inj h).2⟩
      | cons y ys => exact absurd (List.cons.inj h).1 hcomma
    | cons x xs ih =>
      intro ys hw h
      cases ys with
      | nil => exact absurd (List.cons.inj h).1.symm hcomma
      | cons y ys =>
        rw [List.forall_mem_cons] at hw
        obtain ⟨hxy, hrest⟩ := hw.1 y _ _ (ends_behind hcloser _ _) (ends_behind hcloser _ _)
          (List.cons.inj h).2
        obtain ⟨hxs, hr⟩ := ih hw.2 hrest
        exact ⟨by rw [hxy, hxs], hr⟩
  cases xs with
  | nil =>
    cases ys with
    | nil => exact ⟨rfl, (List.cons.inj h).2⟩
    | cons y ys =>
      rw [separated_cons] at h
      exact absurd h.symm (hstart _ _ _)
  | cons x xs =>
    rw [separated_cons] at h
    cases ys with
    | nil => exact absurd h (hstart _ _ _)
    | cons y ys =>
      rw [separated_cons] at h
      rw [List.forall_mem_cons] at hw
      obtain ⟨hxy, hrest⟩ :=
        hw.1 y _ _ (ends_behind hcloser _ _) (ends_behind hcloser _ _) h
      obtain ⟨hxs, hr⟩ := hbehind hw.2 hrest
      exact ⟨by rw [hxy, hxs], hr⟩

end

theorem writeItems_eq (f : Format) (items : List Document) :
    writeItems f items = items.map (write f) := by
  induction items with
  | nil => rfl
  | cons d rest ih => rw [writeItems, ih, List.map_cons]

theorem writeFields_eq (f : Format) (fields : List (String × Document)) :
    writeFields f fields =
      fields.map fun field => f.text field.1 ++ f.keySeparator ++ write f field.2 := by
  induction fields with
  | nil => rfl
  | cons field rest ih => rw [writeFields, ih, List.map_cons]

/-- The characters of a list. -/
theorem toList_write_list (items : List Document) (r : List Char) :
    (write compact (.list items)).toList ++ r =
      '[' :: ([','].intercalate (items.map fun d => (write compact d).toList) ++ ']' :: r) := by
  rw [write, String.toList_append, String.toList_append, String.toList_intercalate,
    writeItems_eq, List.map_map, List.append_assoc, List.append_assoc]
  rfl

/-- The characters of a field. -/
def fieldText (field : String × Document) : List Char :=
  (Text.quotedAscii field.1).toList ++ ':' :: (write compact field.2).toList

/-- The characters of an object. -/
theorem toList_write_object (fields : List (String × Document)) (r : List Char) :
    (write compact (.object fields)).toList ++ r =
      Char.ofNat 0x7b :: ([','].intercalate (fields.map fieldText) ++ Char.ofNat 0x7d :: r) := by
  have htexts : (fields.map fun field =>
      compact.text field.1 ++ compact.keySeparator ++ write compact field.2).map String.toList =
        fields.map fieldText := by
    rw [List.map_map]
    refine List.map_congr_left fun field _ => ?_
    rw [Function.comp, String.toList_append, String.toList_append, List.append_assoc]
    rfl
  rw [write, String.toList_append, String.toList_append, String.toList_intercalate,
    writeFields_eq, htexts, List.append_assoc, List.append_assoc]
  rfl

/-- No text of a document begins as a list ends. -/
theorem write_ne_closer (d : Document) (rest rest' : List Char) :
    (write compact d).toList ++ rest ≠ ']' :: rest' := by
  intro h
  obtain ⟨c, front, hd, hc⟩ := leads_write d
  rw [hd, List.cons_append] at h
  rw [(List.cons.inj h).1] at hc
  cases d <;> cases hc

theorem unambiguous_list {items : List Document} (hitems : ∀ d ∈ items, Unambiguous d) :
    Unambiguous (.list items) := by
  intro b r r' _ _ h
  have hlead := lead_eq h
  cases b with
  | list items' =>
    rw [toList_write_list, toList_write_list] at h
    obtain ⟨hsame, hrest⟩ :=
      separated_inj (by decide) (by decide) write_ne_closer hitems (List.cons.inj h).2
    exact ⟨by rw [hsame], hrest⟩
  | _ => cases hlead

theorem unambiguous_object {fields : List (String × Document)}
    (hfields : ∀ field ∈ fields, Unambiguous field.2) : Unambiguous (.object fields) := by
  intro b r r' _ _ h
  have hlead := lead_eq h
  cases b with
  | object fields' =>
    rw [toList_write_object, toList_write_object] at h
    have hfield : ∀ x ∈ fields, ∀ (y : String × Document) (r r' : List Char), Ends r → Ends r' →
        fieldText x ++ r = fieldText y ++ r' → x = y ∧ r = r' := by
      intro x hx y r r' hr hr' htext
      rw [fieldText, fieldText, List.append_assoc, List.append_assoc] at htext
      obtain ⟨hkey, hvalue⟩ := Text.quotedAscii_append_inj htext
      obtain ⟨hsame, hrest⟩ := hfields x hx y.2 r r' hr hr' (List.cons.inj hvalue).2
      exact ⟨Prod.ext hkey hsame, hrest⟩
    -- Each field begins with the quote of its key, and never with the closing brace.
    have hstart : ∀ (y : String × Document) (rest rest' : List Char),
        fieldText y ++ rest ≠ Char.ofNat 0x7d :: rest' := by
      intro y rest rest' h
      rw [fieldText, Text.quotedAscii, Text.quoteWith, String.toList_ofList] at h
      exact absurd (List.cons.inj h).1 (by decide)
    obtain ⟨hsame, hrest⟩ :=
      separated_inj (by decide) (by decide) hstart hfield (List.cons.inj h).2
    exact ⟨by rw [hsame], hrest⟩
  | _ => cases hlead

mutual

/-- Compact texts are unambiguous. -/
theorem unambiguous : (a : Document) → Unambiguous a
  | .null => unambiguous_null
  | .bool value => unambiguous_bool value
  | .int n => unambiguous_int n
  | .float x => unambiguous_float x
  | .string s => unambiguous_string s
  | .list items => unambiguous_list (unambiguousItems items)
  | .object fields => unambiguous_object (unambiguousFields fields)

theorem unambiguousItems : (items : List Document) → ∀ d ∈ items, Unambiguous d
  | [] => fun _ h => nomatch h
  | d :: rest => List.forall_mem_cons.mpr ⟨unambiguous d, unambiguousItems rest⟩

theorem unambiguousFields : (fields : List (String × Document)) →
    ∀ field ∈ fields, Unambiguous field.2
  | [] => fun _ h => nomatch h
  | (_, d) :: rest => List.forall_mem_cons.mpr ⟨unambiguous d, unambiguousFields rest⟩

end

/-- Documents have different compact texts. -/
theorem write_compact_injective {a b : Document} (h : write compact a = write compact b) :
    a = b := by
  have htext : (write compact a).toList ++ [] = (write compact b).toList ++ [] := by rw [h]
  exact (unambiguous a b [] [] rfl rfl htext).1

/-! ### Sorted keys -/

theorem sortKeysItems_eq (items : List Document) : sortKeysItems items = items.map sortKeys := by
  induction items with
  | nil => rfl
  | cons d rest ih => rw [sortKeysItems, ih, List.map_cons]

/-- A field with the keys inside its value sorted. -/
def sortField (field : String × Document) : String × Document :=
  (field.1, sortKeys field.2)

theorem sortKeysFields_eq (fields : List (String × Document)) :
    sortKeysFields fields = fields.map sortField := by
  induction fields with
  | nil => rfl
  | cons field rest ih => rw [sortKeysFields, ih, List.map_cons, sortField]

/-- Whatever is the same with sorted keys is a reordering. -/
def Sortable (a : Document) : Prop :=
  ∀ b : Document, sortKeys a = sortKeys b → a.Reordered b

/-- Sorting the keys leaves the sort of a value as it is. -/
theorem lead_sortKeys (d : Document) : (sortKeys d).lead = d.lead := by
  cases d <;> rfl

/-- Documents that are neither lists nor objects have no keys to sort. -/
theorem sortKeys_of_scalar {d : Document} (h : d.isCollection = false) : sortKeys d = d := by
  cases d with
  | list => cases h
  | object => cases h
  | _ => rfl

theorem isCollection_sortKeys (d : Document) : (sortKeys d).isCollection = d.isCollection := by
  cases d <;> rfl

theorem sortable_of_scalar {a : Document} (h : a.isCollection = false) : Sortable a := by
  intro b hb
  have hscalar : b.isCollection = false := by
    rw [← isCollection_sortKeys, ← hb, isCollection_sortKeys, h]
  rw [sortKeys_of_scalar h, sortKeys_of_scalar hscalar] at hb
  rw [hb]
  exact .refl b

/-- Items that are the same with sorted keys are reorderings. -/
theorem forall₂_reordered {xs ys : List Document} (hxs : ∀ x ∈ xs, Sortable x)
    (h : xs.map sortKeys = ys.map sortKeys) : List.Forall₂ Reordered xs ys := by
  induction xs generalizing ys with
  | nil =>
    cases ys with
    | nil => exact .nil
    | cons y ys => cases h
  | cons x xs ih =>
    cases ys with
    | nil => cases h
    | cons y ys =>
      rw [List.forall_mem_cons] at hxs
      obtain ⟨hhead, htail⟩ := List.cons.inj h
      exact .cons (hxs.1 y hhead) (ih hxs.2 htail)

theorem sortable_list {items : List Document} (hitems : ∀ d ∈ items, Sortable d) :
    Sortable (.list items) := by
  intro b h
  have hlead := congrArg lead h
  rw [lead_sortKeys, lead_sortKeys] at hlead
  cases b with
  | list items' =>
    rw [sortKeys, sortKeys, sortKeysItems_eq, sortKeysItems_eq] at h
    exact .list (forall₂_reordered hitems (Document.list.inj h))
  | _ => cases hlead

/-- If the images of two lists are the same in another order, so is one list, up to items with the
same image. -/
theorem exists_perm_map_eq {α β : Type} {f : α → β} {xs ys : List α}
    (h : (xs.map f).Perm (ys.map f)) : ∃ moved, xs.Perm moved ∧ moved.map f = ys.map f := by
  have hcomp : Relation.Comp (· = List.map f ·) List.Perm (ys.map f) xs := by
    rw [List.eq_map_comp_perm]
    exact h.symm
  obtain ⟨moved, hsame, hmoved⟩ := hcomp
  exact ⟨moved, hmoved.symm, hsame.symm⟩

theorem sortable_object {fields : List (String × Document)}
    (hfields : ∀ field ∈ fields, Sortable field.2) : Sortable (.object fields) := by
  intro b h
  have hlead := congrArg lead h
  rw [lead_sortKeys, lead_sortKeys] at hlead
  cases b with
  | object fields' =>
    rw [sortKeys, sortKeys, sortKeysFields_eq, sortKeysFields_eq] at h
    -- Sorting moves fields, so equal sorted fields are the same fields in another order.
    have hperm : (fields.map sortField).Perm (fields'.map sortField) := by
      have hsorted := List.mergeSort_perm (fields.map sortField) fun a b => decide (a.1 ≤ b.1)
      rw [Document.object.inj h] at hsorted
      exact hsorted.symm.trans (List.mergeSort_perm _ _)
    obtain ⟨moved, hmoved, hsame⟩ := exists_perm_map_eq hperm
    refine .object hmoved ?_ (forall₂_reordered ?_ ?_)
    · have hkeys := congrArg (List.map Prod.fst) hsame
      rwa [List.map_map, List.map_map] at hkeys
    · intro x hx
      obtain ⟨field, hfield, rfl⟩ := List.mem_map.mp hx
      exact hfields field (hmoved.mem_iff.mpr hfield)
    · have hvalues := congrArg (List.map Prod.snd) hsame
      rw [List.map_map, List.map_map] at hvalues
      rwa [List.map_map, List.map_map]
  | _ => cases hlead

mutual

/-- Sorting the keys moves fields and nothing else. -/
theorem sortable : (a : Document) → Sortable a
  | .list items => sortable_list (sortableItems items)
  | .object fields => sortable_object (sortableFields fields)
  | .null => sortable_of_scalar rfl
  | .bool _ => sortable_of_scalar rfl
  | .int _ => sortable_of_scalar rfl
  | .float _ => sortable_of_scalar rfl
  | .string _ => sortable_of_scalar rfl

theorem sortableItems : (items : List Document) → ∀ d ∈ items, Sortable d
  | [] => fun _ h => nomatch h
  | d :: rest => List.forall_mem_cons.mpr ⟨sortable d, sortableItems rest⟩

theorem sortableFields : (fields : List (String × Document)) →
    ∀ field ∈ fields, Sortable field.2
  | [] => fun _ h => nomatch h
  | (_, d) :: rest => List.forall_mem_cons.mpr ⟨sortable d, sortableFields rest⟩

end

/-- Documents with the same canonical text differ in the order of keys at most. -/
theorem reordered_of_canonical_eq {a b : Document} (h : a.canonical = b.canonical) :
    a.Reordered b :=
  sortable a b (write_compact_injective h)

/-! ### Distinct keys -/

/-- Fields with distinct keys have one sorted order only. -/
theorem mergeSort_eq_of_perm {fields moved : List (String × Document)}
    (order : fields.Perm moved) (distinct : (fields.map Prod.fst).Nodup) :
    fields.mergeSort (fun a b => decide (a.1 ≤ b.1)) =
      moved.mergeSort (fun a b => decide (a.1 ≤ b.1)) := by
  have hsorted : ∀ l : List (String × Document),
      (l.mergeSort fun a b => decide (a.1 ≤ b.1)).Pairwise fun a b => decide (a.1 ≤ b.1) := by
    refine List.pairwise_mergeSort ?_ ?_
    · intro a b c hab hbc
      exact decide_eq_true (String.le_trans (of_decide_eq_true hab) (of_decide_eq_true hbc))
    · intro a b
      simpa using String.le_total a.1 b.1
  refine List.Perm.eq_of_pairwise ?_ (hsorted fields) (hsorted moved)
    ((List.mergeSort_perm _ _).trans (order.trans (List.mergeSort_perm _ _).symm))
  intro a b ha hb hab hba
  have ha' : a ∈ fields := List.mem_mergeSort.mp ha
  have hb' : b ∈ fields := order.mem_iff.mpr (List.mem_mergeSort.mp hb)
  exact List.inj_on_of_nodup_map distinct ha' hb'
    (String.le_antisymm (of_decide_eq_true hab) (of_decide_eq_true hba))

/-- With distinct keys, every reordering is the same with sorted keys. -/
def Stable (a : Document) : Prop :=
  ∀ b : Document, a.Reordered b → a.everyObject distinctKeys → sortKeys a = sortKeys b

/-- Items that are reorderings are the same with sorted keys. -/
theorem map_sortKeys_eq {xs ys : List Document} (hxs : ∀ x ∈ xs, Stable x)
    (hdistinct : ∀ x ∈ xs, x.everyObject distinctKeys) (h : List.Forall₂ Reordered xs ys) :
    xs.map sortKeys = ys.map sortKeys := by
  induction h with
  | nil => rfl
  | cons hhead htail ih =>
    rw [List.forall_mem_cons] at hxs hdistinct
    rw [List.map_cons, List.map_cons, hxs.1 _ hhead hdistinct.1, ih hxs.2 hdistinct.2]

theorem stable_list {items : List Document} (hitems : ∀ d ∈ items, Stable d) :
    Stable (.list items) := by
  intro b h hdistinct
  cases h with
  | list same =>
    rw [everyObject, everyItem_iff] at hdistinct
    rw [sortKeys, sortKeys, sortKeysItems_eq, sortKeysItems_eq,
      map_sortKeys_eq hitems hdistinct same]

/-- Fields are given by their keys and values. -/
theorem map_sortField_eq {fields fields' : List (String × Document)}
    (keys : fields.map Prod.fst = fields'.map Prod.fst)
    (values : (fields.map Prod.snd).map sortKeys = (fields'.map Prod.snd).map sortKeys) :
    fields.map sortField = fields'.map sortField := by
  have hzip : ∀ fields : List (String × Document), fields.map sortField =
      (fields.map Prod.fst).zip ((fields.map Prod.snd).map sortKeys) := by
    intro fields
    rw [List.map_map, List.zip_map']
    rfl
  rw [hzip, hzip, keys, values]

theorem stable_object {fields : List (String × Document)}
    (hfields : ∀ field ∈ fields, Stable field.2) : Stable (.object fields) := by
  intro b h hdistinct
  cases h with
  | @object _ moved fields' order keys values =>
    rw [everyObject, Bool.and_eq_true, distinctKeys, decide_eq_true_eq, everyField_iff]
      at hdistinct
    have hvalues : (moved.map Prod.snd).map sortKeys = (fields'.map Prod.snd).map sortKeys := by
      refine map_sortKeys_eq ?_ ?_ values
      · intro x hx
        obtain ⟨field, hfield, rfl⟩ := List.mem_map.mp hx
        exact hfields field (order.mem_iff.mpr hfield)
      · intro x hx
        obtain ⟨field, hfield, rfl⟩ := List.mem_map.mp hx
        exact hdistinct.2 field (order.mem_iff.mpr hfield)
    -- Sorting is stable, so with a key twice the order of the fields would be seen.
    have hkeys : ((fields.map sortField).map Prod.fst).Nodup := by
      rw [List.map_map]
      exact hdistinct.1
    rw [sortKeys, sortKeys, sortKeysFields_eq, sortKeysFields_eq,
      mergeSort_eq_of_perm (order.map sortField) hkeys, map_sortField_eq keys hvalues]

mutual

/-- The order of distinct keys does not matter after sorting. -/
theorem stable : (a : Document) → Stable a
  | .list items => stable_list (stableItems items)
  | .object fields => stable_object (stableFields fields)
  | .null => fun _ h _ => by rw [h.eq_of_scalar rfl]
  | .bool _ => fun _ h _ => by rw [h.eq_of_scalar rfl]
  | .int _ => fun _ h _ => by rw [h.eq_of_scalar rfl]
  | .float _ => fun _ h _ => by rw [h.eq_of_scalar rfl]
  | .string _ => fun _ h _ => by rw [h.eq_of_scalar rfl]

theorem stableItems : (items : List Document) → ∀ d ∈ items, Stable d
  | [] => fun _ h => nomatch h
  | d :: rest => List.forall_mem_cons.mpr ⟨stable d, stableItems rest⟩

theorem stableFields : (fields : List (String × Document)) →
    ∀ field ∈ fields, Stable field.2
  | [] => fun _ h => nomatch h
  | (_, d) :: rest => List.forall_mem_cons.mpr ⟨stable d, stableFields rest⟩

end

/-- If no key stands twice in an object, the order of keys does not matter for the canonical
text. -/
theorem canonical_eq_of_reordered {a b : Document} (h : a.Reordered b)
    (distinct : a.everyObject distinctKeys) : a.canonical = b.canonical :=
  congrArg (write compact) (stable a b h distinct)

/-! ### The canonical form -/

/-- The canonical text is a complete invariant: two documents have the same one if and only if they
are the same up to the order of keys, at every depth. -/
theorem canonical_eq_iff_reordered {a b : Document} (distinct : a.everyObject distinctKeys) :
    a.canonical = b.canonical ↔ a.Reordered b :=
  ⟨reordered_of_canonical_eq, fun h => canonical_eq_of_reordered h distinct⟩

/-- An object inside a list, with a key and a text that need escapes. -/
def Sample.escaped : List (String × Document) :=
  [("\u00e9\"", .null), ("y", .string "\\\n\u2028😀")]

/-- An entry that holds a list, whose order matters. -/
def Sample.entry (listed : List Document) : List (String × Document) :=
  [("b", .list listed), ("a", .int (-12345678901234567890)), ("Z", .bool false)]

/-- The keys of both objects turned round leave the canonical text as it is; the items of the list
turned round do not. -/
theorem canonical_eq_of_turned_keys :
    (object (Sample.entry [.object Sample.escaped, .int 1])).canonical =
        (object (Sample.entry [.object Sample.escaped.reverse, .int 1]).reverse).canonical ∧
      (object (Sample.entry [.object Sample.escaped, .int 1])).canonical ≠
        (object (Sample.entry [.int 1, .object Sample.escaped])).canonical := by
  have hdistinct : (object (Sample.entry [.object Sample.escaped, .int 1])).everyObject
      distinctKeys := by decide +kernel
  refine ⟨(canonical_eq_iff_reordered hdistinct).mpr ?_, fun h => ?_⟩
  · have hinner : (object Sample.escaped).Reordered (.object Sample.escaped.reverse) :=
      .object (List.reverse_perm _).symm rfl (Reordered.reflFields _)
    exact .object (List.reverse_perm _).symm rfl (.cons (.bool false) (.cons (.int _)
      (.cons (.list (.cons hinner (.cons (.int 1) .nil))) .nil)))
  · have halike : Alike distinctKeys _ _ :=
      ⟨(canonical_eq_iff_reordered hdistinct).mp h, hdistinct, hdistinct⟩
    have hlisted : Alike distinctKeys (.list [.object Sample.escaped, .int 1])
        (.list [.int 1, .object Sample.escaped]) := halike.get "b"
    -- An object is no reordering of a number.
    cases (List.forall₂_cons.mp hlisted.items).1.reordered

end CodeMetrics.Document
