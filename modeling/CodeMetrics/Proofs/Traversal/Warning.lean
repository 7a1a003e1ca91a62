import CodeMetrics.Proofs.Result
import CodeMetrics.Proofs.Scope.Ownership
import CodeMetrics.Proofs.Traversal.Extension
import Mathlib.Data.List.Forall2

/-!
# `CodeMetrics.Proofs.Traversal.Warning`: one warning for each unknown kind

A traversal that meets nodes of unknown kinds records each kind once, with a warning about the
first node of the kind. `Walk.noteAll` is how records come about from what is met, one after the
other. The kinds in it are the different ones in the order of their first occurrence
(`snd_noteAll`), and each has the record that came with it first (`first_noteAll`). Records that
come behind others are those from the start without the kinds of the others (`noteAll_eq`).

What a traversal meets are the nodes of unknown kinds that it visits (`Dialect.notes_of_walk`).
-/

set_option autoImplicit false

namespace CodeMetrics

/-! ### Records -/

namespace Walk

/-- One more entry is recorded if its kind is not. -/
theorem noteAll_concat (entries : List (String × Diagnostic)) (entry : String × Diagnostic)
    (noted : List Diagnostic × List String) :
    noteAll (entries ++ [entry]) noted =
      if entry.1 ∈ (noteAll entries noted).2 then noteAll entries noted
      else ((noteAll entries noted).1 ++ [entry.2], (noteAll entries noted).2 ++ [entry.1]) := by
  simp [noteAll]

/-- The kinds that are recorded are those that were recorded before and the new ones. -/
theorem mem_noteAll (entries : List (String × Diagnostic))
    (noted : List Diagnostic × List String) (kind : String) :
    kind ∈ (noteAll entries noted).2 ↔ kind ∈ noted.2 ∨ kind ∈ entries.map Prod.fst := by
  induction entries generalizing noted with
  | nil => simp [noteAll]
  | cons entry rest ih =>
    rw [noteAll, List.foldl_cons, ← noteAll, ih, List.map_cons, List.mem_cons]
    split
    · rename_i hnoted
      have hmem : entry.1 ∈ noted.2 := by simpa using hnoted
      constructor
      · rintro (h | h)
        · exact .inl h
        · exact .inr (.inr h)
      · rintro (h | rfl | h)
        · exact .inl h
        · exact .inl hmem
        · exact .inr h
    · simp [or_assoc]

/-- The recorded kinds are the different ones, in the order of their first occurrence. -/
theorem snd_noteAll (entries : List (String × Diagnostic)) :
    (noteAll entries ([], [])).2 = (entries.map Prod.fst).eraseDups := by
  induction entries using List.reverseRecOn with
  | nil => rfl
  | append_singleton entries entry ih =>
    rw [noteAll_concat, ih, List.map_append, List.eraseDups_append]
    by_cases hmem : entry.1 ∈ entries.map Prod.fst
    · simp [List.removeAll, hmem, ih]
    · simp [List.removeAll, hmem, List.eraseDups_cons]

/-- Each recorded kind has the record that came with it first. -/
theorem first_noteAll (entries : List (String × Diagnostic)) :
    List.Forall₂ (fun kind record => entries.find? (·.1 == kind) = some (kind, record))
      (noteAll entries ([], [])).2 (noteAll entries ([], [])).1 := by
  induction entries using List.reverseRecOn with
  | nil => exact .nil
  | append_singleton entries entry ih =>
    -- What was found among the earlier entries is found there still.
    have hearlier := ih.imp (S := fun kind record =>
        (entries ++ [entry]).find? (·.1 == kind) = some (kind, record)) fun kind record hfound => by
      rw [List.find?_append, hfound, Option.some_or]
    rw [noteAll_concat]
    split
    · exact hearlier
    · rename_i hnew
      rw [snd_noteAll, List.mem_eraseDups] at hnew
      have hnone : entries.find? (·.1 == entry.1) = none := by
        refine List.find?_eq_none.mpr fun other hother heq => hnew ?_
        exact List.mem_map.mpr ⟨other, hother, beq_iff_eq.mp heq⟩
      refine List.rel_append hearlier (.cons ?_ .nil)
      rw [List.find?_append, hnone, Option.none_or]
      simp

/-- Records that come behind others are the same as from the start, but for the kinds that were
recorded before. -/
theorem noteAll_eq (entries : List (String × Diagnostic)) (noted : List Diagnostic × List String) :
    noteAll entries noted =
      let fresh := ((noteAll entries ([], [])).2.zip (noteAll entries ([], [])).1).filter
        fun entry => !noted.2.contains entry.1
      (noted.1 ++ fresh.map Prod.snd, noted.2 ++ fresh.map Prod.fst) := by
  induction entries using List.reverseRecOn with
  | nil => simp [noteAll]
  | append_singleton entries entry ih =>
    have hlength := (first_noteAll entries).length_eq
    have hnoted := mem_noteAll entries noted entry.1
    have hstart := mem_noteAll entries ([], []) entry.1
    simp only [List.not_mem_nil, false_or] at hstart
    rw [noteAll_concat, noteAll_concat]
    by_cases hentries : entry.1 ∈ entries.map Prod.fst
    · rw [if_pos (hnoted.mpr (Or.inr hentries)), if_pos (hstart.mpr hentries)]
      exact ih
    · rw [if_neg fun h => hentries (hstart.mp h), List.zip_append hlength, List.filter_append]
      -- A new kind is left out only if it was recorded before all of the entries.
      by_cases hbefore : entry.1 ∈ noted.2
      · rw [if_pos (hnoted.mpr (Or.inl hbefore)), ih]
        simp [hbefore]
      · rw [if_neg fun h => (hnoted.mp h).elim hbefore hentries, ih]
        simp [hbefore]

end Walk

/-! ### What a traversal records -/

namespace Dialect

/-- The warning about a node of an unknown kind. -/
def warning (d : Dialect) (kind : String) (lines : Option (Lines Int)) : Diagnostic :=
  { severity := .string "warning"
    message := .string ("Unsupported syntax for " ++ d.name ++ " dialect: " ++ kind)
    first := Error.optionalInt (lines.map Lines.first)
    last := Error.optionalInt (lines.map Lines.last)
    name := .string "UnsupportedSyntaxError" }

/-- The error about a node of an unknown kind. -/
def unknownError (d : Dialect) (kind : String) (lines : Option (Lines Int)) : Error :=
  .unsupportedSyntax kind d.name (lines.map Lines.first) (lines.map Lines.last)

/-- The warning is the record of the error. -/
theorem record_unknownError (d : Dialect) (kind : String) (lines : Option (Lines Int)) :
    (d.unknownError kind lines).record "warning" = d.warning kind lines := rfl

/-- The occurrences among the given ones whose kinds are unknown. -/
def unknownAmong (d : Dialect) (os : List Occurrence) : List Occurrence :=
  os.filter fun o => (d.ruleFor o.place.node).isNone

/-- Errands meet the unknown kinds of the first of them before those of the others. -/
theorem unknownAmong_visited_append (d : Dialect) (es fs : List Errand) :
    d.unknownAmong (Errand.visited (es ++ fs)) =
      d.unknownAmong (Errand.visited es) ++ d.unknownAmong (Errand.visited fs) := by
  simp only [unknownAmong, Errand.visited, List.filterMap_append, List.filter_append]

/-- The kind of a node and the warning about it. -/
def report (d : Dialect) (node : Document) : String × Diagnostic :=
  let kind := Walk.reportedKind node
  (kind, d.warning kind (node.lines?.toOption.getD none))

end Dialect

namespace Walk

variable {d : Dialect} {s : Settings}

/-- Meeting a node of an unknown kind without a failure. The node has lines that can be read, the
mode is not strict, and the node is reported. -/
theorem notes_of_meetUnknown {w after : Walk} {node : Document}
    (h : w.meetUnknown d s node = .ok after) :
    (∃ lines, node.lines? = .ok lines) ∧ s.on .strict = false ∧
      (after.errors, after.unsupported) = noteAll [d.report node] (w.errors, w.unsupported) := by
  unfold meetUnknown unknownKind at h
  cases hlines : node.lines? with
  | error fault =>
    rw [hlines] at h
    cases h
  | ok lines =>
    cases hstrict : s.on .strict with
    | true =>
      rw [hlines, hstrict] at h
      cases h
    | false =>
      refine ⟨⟨lines, rfl⟩, rfl, ?_⟩
      rw [hlines, hstrict] at h
      have hreport : d.report node = (reportedKind node, d.warning (reportedKind node) lines) := by
        rw [Dialect.report, hlines]
        rfl
      rw [hreport, noteAll, List.foldl_cons, List.foldl_nil]
      simp only [Except.mapError, bind, Except.bind, pure, Except.pure] at h
      -- A kind that is recorded already is left out, here and in `noteAll`.
      cases hnoted : w.unsupported.contains (reportedKind node) with
      | true =>
        rw [hnoted] at h
        cases h
        rfl
      | false =>
        rw [hnoted] at h
        cases h
        rfl

/-- Opening a scope records nothing. -/
theorem notes_of_openScope {w after : Walk} {p : Placed} {rule : Rule} {form : ScopeForm}
    (h : w.openScope p rule form = .ok after) :
    (after.errors, after.unsupported) = (w.errors, w.unsupported) := by
  obtain ⟨lines, -, h⟩ := exists_of_bind_eq_ok h
  cases form with
  | classBody =>
    cases h
    rfl
  | function =>
    cases h
    rfl

/-- Closing a scope records nothing. -/
theorem notes_of_closeScope {w after : Walk} {form : ScopeForm}
    (h : w.closeScope form = .ok after) :
    (after.errors, after.unsupported) = (w.errors, w.unsupported) := by
  obtain ⟨tree, -, h⟩ := exists_of_bind_eq_ok h
  cases h
  rfl

/-- An errand records what it meets. -/
theorem notes_of_perform {w after : Walk} {e : Errand} (h : w.perform d s e.task = .ok after) :
    (∀ o ∈ d.unknownAmong (Errand.visited [e]), ∃ lines, o.place.node.lines? = .ok lines) ∧
      (after.errors, after.unsupported) =
        noteAll ((d.unknownAmong (Errand.visited [e])).map fun o => d.report o.place.node)
          (w.errors, w.unsupported) := by
  cases e with
  | openScope o rule form => exact ⟨fun _ ho => (List.not_mem_nil ho).elim, notes_of_openScope h⟩
  | closeScope o form => exact ⟨fun _ ho => (List.not_mem_nil ho).elim, notes_of_closeScope h⟩
  | visit o =>
    simp only [Errand.task, perform] at h
    cases hrule : d.ruleFor o.place.node with
    | none =>
      have hunknown : d.unknownAmong (Errand.visited [.visit o]) = [o] := by
        simp [Dialect.unknownAmong, Errand.visited, Errand.visited?, hrule]
      simp only [hrule] at h
      obtain ⟨hlines, -, hnotes⟩ := notes_of_meetUnknown h
      rw [hunknown]
      refine ⟨fun v hv => ?_, hnotes⟩
      cases List.mem_singleton.mp hv
      exact hlines
    | some rule =>
      have hknown : d.unknownAmong (Errand.visited [.visit o]) = [] := by
        simp [Dialect.unknownAmong, Errand.visited, Errand.visited?, hrule]
      simp only [hrule] at h
      obtain ⟨c, -, h⟩ := exists_of_bind_eq_ok h
      cases h
      rw [hknown]
      exact ⟨fun _ hv => (List.not_mem_nil hv).elim, rfl⟩

end Walk

namespace Dialect

variable {d : Dialect} {s : Settings} {root : Document}

/-- A traversal that comes to its end has recorded the nodes of unknown kinds that it visited, and
these have lines that can be read. -/
theorem notes_of_walk {w : Walk} (done : d.walk s root = .ok w) :
    (∀ o ∈ d.unknownAmong (d.journal s root).visited, ∃ lines, o.place.node.lines? = .ok lines) ∧
      (w.errors, w.unsupported) =
        Walk.noteAll
          ((d.unknownAmong (d.journal s root).visited).map fun o => d.report o.place.node)
          ([], []) := by
  refine invariant_of_walk (P := fun log w =>
    (∀ o ∈ d.unknownAmong (Errand.visited log), ∃ lines, o.place.node.lines? = .ok lines) ∧
      (w.errors, w.unsupported) = Walk.noteAll
        ((d.unknownAmong (Errand.visited log)).map fun o => d.report o.place.node) ([], []))
    done (fun lines => ⟨fun o ho => (List.not_mem_nil ho).elim, rfl⟩) ?_
  rintro log e before after turn ⟨hlines, hnotes⟩
  obtain ⟨hlines', hnotes'⟩ := Walk.notes_of_perform turn.performed
  rw [unknownAmong_visited_append]
  refine ⟨List.forall_mem_append.mpr ⟨hlines, hlines'⟩, ?_⟩
  rw [hnotes', hnotes, List.map_append]
  exact (List.foldl_append ..).symm

/-- The warnings of a traversal that comes to its end: one for each unknown kind that it meets, in
the order of the first nodes of the kinds, and about these nodes. -/
theorem warnings_of_walk {w : Walk} (done : d.walk s root = .ok w) :
    let unknown := d.unknownAmong (d.journal s root).visited
    w.unsupported = (unknown.map fun o => Walk.reportedKind o.place.node).eraseDups ∧
    List.Forall₂ (fun kind entry => ∃ o lines,
        unknown.find? (fun o => Walk.reportedKind o.place.node == kind) = some o ∧
        o.place.node.lines? = .ok lines ∧ entry = d.warning kind lines)
      w.unsupported w.errors := by
  intro unknown
  obtain ⟨hlines, hnotes⟩ := notes_of_walk done
  have herrors : w.errors = _ := congrArg Prod.fst hnotes
  have hunsupported : w.unsupported = _ := congrArg Prod.snd hnotes
  refine ⟨?_, ?_⟩
  · rw [hunsupported, Walk.snd_noteAll, List.map_map]
    rfl
  · rw [hunsupported, herrors]
    refine (Walk.first_noteAll _).imp fun kind entry hfound => ?_
    -- The first report of the kind is that of the first node of the kind.
    rw [List.find?_map, Option.map_eq_some_iff] at hfound
    obtain ⟨o, ho, hreport⟩ := hfound
    obtain ⟨lines, hread⟩ := hlines o (List.mem_of_find?_eq_some ho)
    refine ⟨o, lines, ho, hread, ?_⟩
    rw [report, hread] at hreport
    obtain ⟨rfl, rfl⟩ := Prod.mk.inj hreport
    rfl

end Dialect

end CodeMetrics
