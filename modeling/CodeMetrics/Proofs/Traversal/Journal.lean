import CodeMetrics.Dialect.Estree
import CodeMetrics.Proofs.Traversal.Occurrence

/-!
# `CodeMetrics.Proofs.Traversal.Journal`: what a traversal did, step by step

The result of a traversal does not show how it came about. `Walk.journal` is the same run
that also writes down each errand it carries out and the walk it carried it out on. The
journal changes nothing (`outcome_journal`), so what it says about visits and scopes is said
about the run.

What a journal can hold is known in advance: the errands are those of the script, in order,
up to the first one that fails (`errands_start_script`). Each of them starts from the
walk that the errands before it lead to (`performAll_of_journal`).

`Dialect.walk_eq_traverse` puts this together for a whole tree. The result is that of the
recursion on the tree, and each node that can be reached is visited once.
-/

set_option autoImplicit false

namespace CodeMetrics

/-- An errand that was carried out, and the walk that it was carried out on. -/
structure Entry where
  errand : Errand
  before : Walk

/-- What a run did and how it ended. The errand that a run failed at is the last entry. -/
structure Journal where
  entries : List Entry
  outcome : Except Error Walk

namespace Journal

/-- The errands that were carried out, in order. -/
def errands (j : Journal) : List Errand :=
  j.entries.map Entry.errand

/-- The journal with an entry in front. -/
def precededBy (j : Journal) (entry : Entry) : Journal :=
  { j with entries := entry :: j.entries }

/-- The occurrences that were visited, in order. -/
def visited (j : Journal) : List Occurrence :=
  Errand.visited j.errands

end Journal

namespace Walk

/-- Carries out the errands and what comes out of them, and writes a journal. -/
def journal (d : Dialect) (s : Settings) (w : Walk) : List Errand → Journal
  | [] => { entries := [], outcome := .ok w }
  | e :: rest =>
    match w.perform d s e.task with
    | .error error => { entries := [⟨e, w⟩], outcome := .error error }
    | .ok after => (after.journal d s (e.next d s ++ rest)).precededBy ⟨e, w⟩
termination_by es => Errand.weight es
decreasing_by exact Errand.weight_next_append_lt d s e rest

/-- Carries out the errands, but nothing that comes out of them. -/
def performAll (d : Dialect) (s : Settings) (w : Walk) (es : List Errand) : Except Error Walk :=
  es.foldlM (fun w e => w.perform d s e.task) w

variable {d : Dialect} {s : Settings}

/-- Carrying out one more errand. -/
theorem performAll_append_singleton {w after : Walk} {es : List Errand} {e : Errand}
    (h : w.performAll d s (es ++ [e]) = .ok after) :
    ∃ before, w.performAll d s es = .ok before ∧ before.perform d s e.task = .ok after := by
  rw [performAll, List.foldlM_append] at h
  cases hbefore : w.performAll d s es with
  | error error =>
    rw [performAll] at hbefore
    rw [hbefore] at h
    cases h
  | ok before =>
    rw [performAll] at hbefore
    rw [hbefore] at h
    refine ⟨before, rfl, ?_⟩
    cases hafter : before.perform d s e.task with
    | error error =>
      simp [bind, Except.bind, hafter] at h
    | ok last =>
      simp [bind, Except.bind, pure, Except.pure, hafter] at h
      rw [h]

/-- Writing a journal does not change how a run ends. -/
theorem outcome_journal (w : Walk) (es : List Errand) :
    (w.journal d s es).outcome = w.run d s (es.map Errand.task) := by
  fun_induction journal d s w es with
  | case1 w => rw [List.map_nil, run_nil]
  | case2 w e rest error herror =>
    rw [List.map_cons, run_cons, herror]
    rfl
  | case3 w e rest after hafter ih =>
    rw [List.map_cons, run_cons, hafter]
    show (after.journal d s (e.next d s ++ rest)).outcome = after.run d s _
    rw [ih, List.map_append, Errand.map_task_next]

/-- The errands of a journal start the script. A run that does not fail carries out all of
it. -/
theorem errands_start_script (w : Walk) (es : List Errand) :
    (w.journal d s es).errands <+: Errand.script d s es ∧
      ∀ after, (w.journal d s es).outcome = .ok after →
        (w.journal d s es).errands = Errand.script d s es := by
  fun_induction journal d s w es with
  | case1 w =>
    rw [Errand.script]
    exact ⟨List.prefix_refl _, fun _ _ => rfl⟩
  | case2 w e rest error herror =>
    rw [Errand.script]
    refine ⟨List.prefix_append [e] _, fun _ h => ?_⟩
    cases h
  | case3 w e rest after hafter ih =>
    rw [Errand.script]
    refine ⟨(List.prefix_cons_inj e).mpr ih.1, fun w' h => ?_⟩
    exact congrArg (e :: ·) (ih.2 w' h)

/-- An errand of a journal starts from the walk that the errands before it lead to. -/
theorem performAll_of_journal {w : Walk} {es : List Errand} {earlier later : List Entry}
    {entry : Entry} (h : (w.journal d s es).entries = earlier ++ entry :: later) :
    w.performAll d s (earlier.map Entry.errand) = .ok entry.before := by
  fun_induction journal d s w es generalizing earlier with
  | case1 w => simp at h
  | case2 w e rest error herror =>
    -- The journal has one entry, which is then the one in question.
    cases earlier with
    | nil =>
      cases h
      rfl
    | cons first earlier => simp at h
  | case3 w e rest after hafter ih =>
    cases earlier with
    | nil =>
      cases h
      rfl
    | cons first earlier =>
      obtain ⟨rfl, hrest⟩ := List.cons.inj h
      show (w.perform d s e.task >>= fun w => w.performAll d s _) = _
      rw [hafter]
      exact ih hrest

/-- A run that does not fail ends with the walk that its errands lead to. -/
theorem performAll_of_journal_ok {w after : Walk} {es : List Errand}
    (h : (w.journal d s es).outcome = .ok after) :
    w.performAll d s (w.journal d s es).errands = .ok after := by
  fun_induction journal d s w es with
  | case1 w => exact h
  | case2 w e rest error herror => cases h
  | case3 w e rest next hnext ih =>
    show (w.perform d s e.task >>= fun w => w.performAll d s _) = _
    rw [hnext]
    exact ih h

/-- A run that fails does so at the last errand of its journal. -/
theorem exists_entry_of_error {w : Walk} {es : List Errand} {error : Error}
    (h : (w.journal d s es).outcome = .error error) :
    ∃ earlier entry, (w.journal d s es).entries = earlier ++ [entry] ∧
      entry.before.perform d s entry.errand.task = .error error := by
  fun_induction journal d s w es with
  | case1 w => cases h
  | case2 w e rest other hother =>
    cases h
    exact ⟨[], ⟨e, w⟩, rfl, hother⟩
  | case3 w e rest after hafter ih =>
    obtain ⟨earlier, entry, hentries, herror⟩ := ih h
    exact ⟨⟨e, w⟩ :: earlier, entry, congrArg (_ :: ·) hentries, herror⟩

end Walk

/-! ### From the root -/

namespace Dialect

/-- The root of a tree as an occurrence. -/
def top (d : Dialect) (root : Document) : Occurrence :=
  { place := { node := d.typedRoot root } }

/-- The journal of the traversal of a tree. Where the root has no usable lines, nothing is
carried out. -/
def journal (d : Dialect) (s : Settings) (root : Document) : Journal :=
  match root.lines? with
  | .ok (some lines) => Walk.journal d s { tree := .start lines } [.visit (d.top root)]
  | _ => { entries := [], outcome := d.walk s root }

variable {d : Dialect} {s : Settings} {root : Document}

/-- The journal of a tree with usable lines. -/
theorem journal_of_lines {lines : Lines Int} (usable : root.lines? = .ok (some lines)) :
    d.journal s root = Walk.journal d s { tree := .start lines } [.visit (d.top root)] := by
  simp only [journal, usable]

/-- The traversal of a tree with usable lines. -/
theorem walk_of_lines {lines : Lines Int} (usable : root.lines? = .ok (some lines)) :
    d.walk s root =
      Walk.run d s { tree := .start lines } [.visit { node := d.typedRoot root }] := by
  simp only [walk, usable]
  rfl

/-- The journal of a tree ends as the traversal does. -/
theorem outcome_journal_eq_walk (d : Dialect) (s : Settings) (root : Document) :
    (d.journal s root).outcome = d.walk s root := by
  unfold journal
  split
  · rename_i lines usable
    rw [walk_of_lines usable, Walk.outcome_journal]
    rfl
  · rfl

/-- The errands of a journal start the script of the tree. -/
theorem errands_start_script (d : Dialect) (s : Settings) (root : Document) :
    (d.journal s root).errands <+: Errand.script d s [.visit (d.top root)] := by
  unfold journal
  split
  · exact (Walk.errands_start_script _ _).1
  · exact List.nil_prefix

/-- An errand of the journal of a tree starts from the walk that the errands before it lead
to. -/
theorem performAll_of_journal {earlier later : List Entry} {entry : Entry}
    (h : (d.journal s root).entries = earlier ++ entry :: later) :
    ∃ lines, Walk.performAll d s { tree := .start lines } (earlier.map Entry.errand) =
      .ok entry.before := by
  unfold journal at h
  split at h
  · exact ⟨_, Walk.performAll_of_journal h⟩
  · simp at h

/-- A traversal either has usable lines to start from, or fails with an error that has
nothing to do with scopes. -/
theorem lines_or_error (d : Dialect) (s : Settings) (root : Document) :
    (∃ lines, root.lines? = .ok (some lines)) ∨
      d.walk s root = .error .noLines ∨ ∃ fault, d.walk s root = .error (.fault fault) := by
  unfold walk
  cases root.lines? with
  | error fault => exact Or.inr (Or.inr ⟨fault, rfl⟩)
  | ok lines =>
    cases lines with
    | none => exact Or.inr (Or.inl rfl)
    | some lines => exact Or.inl ⟨lines, rfl⟩

/-- A traversal that does not fail starts from usable lines. -/
theorem exists_lines_of_walk {w : Walk} (h : d.walk s root = .ok w) :
    ∃ lines, root.lines? = .ok (some lines) := by
  rcases lines_or_error d s root with usable | herror | ⟨fault, herror⟩
  · exact usable
  · rw [herror] at h
    cases h
  · rw [herror] at h
    cases h

/-- From there its errands lead to where it ends. -/
theorem performAll_of_lines {w : Walk} {lines : Lines Int}
    (usable : root.lines? = .ok (some lines)) (h : d.walk s root = .ok w) :
    Walk.performAll d s { tree := .start lines } (d.journal s root).errands = .ok w := by
  rw [← outcome_journal_eq_walk, journal_of_lines usable] at h
  rw [journal_of_lines usable]
  exact Walk.performAll_of_journal_ok h

/-- A traversal that does not fail carries out the script of the tree. -/
theorem performAll_of_walk {w : Walk} (h : d.walk s root = .ok w) :
    (d.journal s root).errands = Errand.script d s [.visit (d.top root)] ∧
      ∃ lines, Walk.performAll d s { tree := .start lines } (d.journal s root).errands =
        .ok w := by
  obtain ⟨lines, usable⟩ := exists_lines_of_walk h
  refine ⟨?_, lines, performAll_of_lines usable h⟩
  rw [← outcome_journal_eq_walk, journal_of_lines usable] at h
  rw [journal_of_lines usable]
  exact (Walk.errands_start_script _ _).2 w h

/-- No label occurs twice in the script of a tree. -/
theorem pairwise_label_script (d : Dialect) (s : Settings) (root : Document) :
    (Errand.script d s [.visit (d.top root)]).Pairwise fun a b => a.label ≠ b.label :=
  Errand.pairwise_label_script (List.pairwise_singleton _ _)

/-- No occurrence is visited twice. -/
theorem nodup_path_visited (d : Dialect) (s : Settings) (root : Document) :
    ((d.journal s root).visited.map Occurrence.path).Nodup :=
  Errand.nodup_path_visited
    ((pairwise_label_script d s root).sublist (errands_start_script d s root).sublist)

/-- What is visited can be reached. -/
theorem reaches_of_mem_visited {o : Occurrence} (h : o ∈ (d.journal s root).visited) :
    d.Reaches s (d.top root) o :=
  Errand.visit_mem_script_iff.mp
    ((errands_start_script d s root).subset (Errand.mem_visited.mp h))

/-- A traversal that does not fail visits all that can be reached. -/
theorem mem_visited_of_reaches {w : Walk} (done : d.walk s root = .ok w) {o : Occurrence}
    (h : d.Reaches s (d.top root) o) : o ∈ (d.journal s root).visited := by
  rw [Journal.visited, (performAll_of_walk done).1]
  exact Errand.mem_visited.mpr (Errand.visit_mem_script_iff.mpr h)

end Dialect

/-! ### A module with nested scopes

A class whose method has a function as the default value of a parameter and another class
in its body. The function belongs to the first class and stands outside of the method, and
the inner class has a method of its own.
-/

namespace Sample

/-- A node of the given kind. -/
def node (kind : String) (fields : List (String × Document)) : Document :=
  .object (("type", .string kind) :: fields)

/-- An identifier. -/
def name (text : String) : Document :=
  node "Identifier" [("name", .string text)]

/-- A function without a name. -/
def function (params body : List Document) : Document :=
  node "FunctionExpression"
    [("params", .list params), ("body", node "BlockStatement" [("body", .list body)])]

/-- A class whose only member is a method. -/
def classWith (own method : String) (value : Document) : Document :=
  node "ClassDeclaration"
    [("id", name own),
     ("body", node "ClassBody"
      [("body", .list [node "MethodDefinition" [("key", name method), ("value", value)]])])]

/-- The lines from 1 to 9. -/
def location : Document :=
  .object
    [("start", .object [("line", .int 1)]), ("end", .object [("line", .int 9)])]

/-- A location from one line to another. -/
def linesFrom (first last : Int) : String × Document :=
  ("loc", .object
    [("start", .object [("line", .int first)]), ("end", .object [("line", .int last)])])

/-- The module with the nested scopes. -/
def nested : Document :=
  node "Program"
    [("body", .list
      [classWith "Outer" "run" (function
        [node "AssignmentPattern"
          [("left", name "x"), ("right", function [name "y", name "z"] [name "y"])]]
        [classWith "Inner" "stop" (function [] [name "x"]),
         node "LogicalExpression"
          [("operator", .string "&&"), ("left", name "x"), ("right", name "y")]])]),
     ("loc", location)]

end Sample

end CodeMetrics
