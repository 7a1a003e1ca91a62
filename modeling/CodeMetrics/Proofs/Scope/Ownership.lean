import CodeMetrics.Proofs.Scope.Nesting
import Mathlib.Data.List.Nodup

/-!
# `CodeMetrics.Proofs.Scope.Ownership`: which scope a node belongs to

The owner of an occurrence is the innermost node whose scope it stands in, one owner for each
form of scope. It is read off the way down to the occurrence, so it is a property of the tree.

A traversal knows only its open scopes. `Turn` collects what holds when an errand has its
turn, and `Turn.head_openScopes_iff` is the link between the two: the innermost open scope is
the one that was opened for the owner. `invariant_of_walk` is the induction over the turns of
a traversal. Statements about the scopes at its end are proved with it.

Scopes are opened for the nodes that have one, each of them once (`opened_perm`), and
numbered in the order of their opening (`map_scopeOf`). `Dialect.Traversed` puts together what
a journal says about a traversal that came to its end.
-/

set_option autoImplicit false

namespace CodeMetrics

/-! ### Owners -/

/-- The form of the scope of a node, if it has one. -/
def Dialect.opens (d : Dialect) (o : Occurrence) : Option ScopeForm :=
  (d.ruleFor o.place.node).bind Rule.opens

/-- The innermost of the nodes whose scopes of the given form an occurrence stands in. -/
def Occurrence.owner (d : Dialect) (form : ScopeForm) (o : Occurrence) : Option Occurrence :=
  (o.nest d form).head?

/-- Whether an occurrence has the given owner. -/
def Occurrence.ownedBy (d : Dialect) (form : ScopeForm) (o owner : Occurrence) : Bool :=
  (o.owner d form).any fun p => p.path == owner.path

namespace Occurrence

variable {d : Dialect} {form : ScopeForm} {o p : Occurrence}

/-- Having an owner, with the owner named. -/
theorem ownedBy_iff : o.ownedBy d form p ↔ ∃ q, o.owner d form = some q ∧ q.path = p.path := by
  simp [ownedBy, Option.any_eq_true]

/-- The owner is one of the nodes whose scopes an occurrence stands in. -/
theorem mem_nest_of_owner (h : o.owner d form = some p) : p ∈ o.nest d form :=
  List.mem_of_head? h

end Occurrence

/-! ### Turns -/

/-- What holds when an errand has its turn after the errands of `log`: the scopes are tied to
those, all of them fit, none is carried out twice, and this one does not fail. -/
structure Turn (d : Dialect) (s : Settings) (log : List Errand) (e : Errand)
    (w after : Walk) : Prop where
  tracks : w.tree.Tracks log
  allFit : Errand.AllFit d (fun _ => []) (log ++ [e])
  labels : (log ++ [e]).Pairwise fun a b => a.label ≠ b.label
  performed : w.perform d s e.task = .ok after

/-- The errands that are carried out where their occurrence stands. The scope of a node is
closed inside of it, so closing is none of them. -/
inductive Errand.StartsAt (o : Occurrence) : Errand → Prop
  | visit : StartsAt o (.visit o)
  | openScope {rule : Rule} {form : ScopeForm} : StartsAt o (.openScope o rule form)

namespace Errand

variable {d : Dialect} {form : ScopeForm} {o p : Occurrence} {e : Errand} {log : List Errand}

/-- An errand that starts where its occurrence stands fits the nest there. -/
theorem StartsAt.nest_eq (h : e.StartsAt o) {n : Nest} (hfits : e.Fits d n) : n = o.nest d := by
  cases h with
  | visit => exact hfits
  | openScope => exact hfits

/-- The scope of the owner is opened before anything that it owns has its turn. -/
theorem AllFit.owner_mem_opened (hfit : AllFit d (fun _ => []) log) (he : e ∈ log)
    (hat : e.StartsAt o) (howner : o.owner d form = some p) : p ∈ opened form log := by
  obtain ⟨before, after, rfl⟩ := List.append_of_mem he
  have hnest := hat.nest_eq hfit.fits
  have hopen : p ∈ nestAfter (fun _ => []) before form := by
    rw [hnest]
    exact Occurrence.mem_nest_of_owner howner
  rw [opened_append]
  exact List.mem_append_left _ (mem_opened_of_mem_nestAfter hopen)

/-- A visit is one more visited occurrence. -/
theorem visited_append_visit (log : List Errand) (o : Occurrence) :
    visited (log ++ [.visit o]) = visited log ++ [o] := by
  simp [visited, visited?]

/-- Other errands visit nothing. -/
theorem visited_append_of_none (log : List Errand) (h : e.visited? = none) :
    visited (log ++ [e]) = visited log := by
  simp [visited, h]

/-- An opening is one more opened scope. -/
theorem opened_append_openScope (log : List Errand) (o : Occurrence) (rule : Rule)
    (form : ScopeForm) : opened form (log ++ [.openScope o rule form]) = opened form log ++ [o] := by
  simp [opened, opened?]

/-- After an opening, a position among the opened scopes is one from before or the new one. -/
theorem getElem?_opened_openScope {rule : Rule} {k : Nat}
    (h : (opened form (log ++ [.openScope o rule form]))[k]? = some p) :
    k < (opened form log).length ∧ (opened form log)[k]? = some p ∨
      k = (opened form log).length ∧ p = o := by
  rw [opened_append_openScope, List.getElem?_append] at h
  split at h
  · exact Or.inl ⟨‹_›, h⟩
  · rw [List.getElem?_singleton] at h
    split at h
    · cases h
      exact Or.inr ⟨by omega, rfl⟩
    · cases h

/-- Other errands open nothing. -/
theorem opened_append_of_none (log : List Errand) (h : e.opened? form = none) :
    opened form (log ++ [e]) = opened form log := by
  simp [opened, h]

/-- The number of the scope that is opened at a position. -/
theorem numberOf_of_getElem? {k : Nat} (hlabels : log.Pairwise fun a b => a.label ≠ b.label)
    (hk : (opened form log)[k]? = some o) : numberOf form log o = form.first + k := by
  have hpath : ((opened form log).map Occurrence.path)[k]? = some o.path := by
    rw [List.getElem?_map, hk]
    rfl
  obtain ⟨hlt, heq⟩ := List.getElem?_eq_some_iff.mp hpath
  rw [numberOf, ← heq, (nodup_path_opened form hlabels).idxOf_getElem]

end Errand

namespace Turn

variable {d : Dialect} {s : Settings} {log : List Errand} {e : Errand} {w after : Walk}
variable {o p : Occurrence} {form : ScopeForm}

/-- The nest at the turn is that of the occurrence. -/
theorem nestAfter_eq (turn : Turn d s log e w after) (hat : e.StartsAt o) :
    Errand.nestAfter (fun _ => []) log = o.nest d :=
  hat.nest_eq turn.allFit.fits

/-- The errands before the turn fit. -/
theorem allFit_log (turn : Turn d s log e w after) : Errand.AllFit d (fun _ => []) log :=
  (Errand.allFit_append.mp turn.allFit).1

/-- The errands before the turn are told apart by their labels. -/
theorem labels_log (turn : Turn d s log e w after) :
    log.Pairwise fun a b => a.label ≠ b.label :=
  turn.labels.sublist (List.sublist_append_left _ _)

/-- The scope of the owner is open already. -/
theorem owner_mem_opened (turn : Turn d s log e w after) (hat : e.StartsAt o)
    (howner : o.owner d form = some p) : p ∈ Errand.opened form log := by
  apply Errand.mem_opened_of_mem_nestAfter
  rw [turn.nestAfter_eq hat]
  exact Occurrence.mem_nest_of_owner howner

/-- The innermost open scope is the one of the owner. -/
theorem head_openScopes (turn : Turn d s log e w after) (hat : e.StartsAt o)
    (form : ScopeForm) :
    (w.tree.openScopes form).head? = (o.owner d form).map (Errand.numberOf form log) := by
  rw [turn.tracks.openScopes form, turn.nestAfter_eq hat, List.head?_map]
  rfl

/-- The innermost open scope has the number of a scope if that is the one of the owner. -/
theorem head_openScopes_iff (turn : Turn d s log e w after) (hat : e.StartsAt o) {k : Nat}
    (hk : (Errand.opened form log)[k]? = some p) :
    (w.tree.openScopes form).head? = some (form.first + k) ↔ o.ownedBy d form p := by
  rw [turn.head_openScopes hat, Option.map_eq_some_iff, Occurrence.ownedBy_iff,
    ← Errand.numberOf_of_getElem? turn.labels_log hk]
  refine exists_congr fun q => and_congr_right fun howner => ?_
  -- The owner was opened, and among opened scopes the number tells the path.
  have hq : q.path ∈ (Errand.opened form log).map Occurrence.path :=
    List.mem_map_of_mem (turn.owner_mem_opened hat howner)
  rw [Errand.numberOf, Errand.numberOf, Nat.add_left_cancel_iff, List.idxOf_inj hq]

/-- As many functions are open as the occurrence stands in. -/
theorem depth_eq (turn : Turn d s log e w after) (hat : e.StartsAt o) :
    w.tree.depth = (o.nest d .function).length := by
  have hopen := turn.tracks.openScopes .function
  rw [turn.nestAfter_eq hat] at hopen
  show (w.tree.openScopes .function).length = _
  rw [hopen, List.length_map]

/-- Nothing is owned by a node before its scope is opened. -/
theorem not_ownedBy {rule : Rule} (turn : Turn d s log (.openScope p rule form) w after)
    {a : Errand} (ha : a ∈ log) (hat : a.StartsAt o) : ¬ o.ownedBy d form p := by
  rw [Occurrence.ownedBy_iff]
  rintro ⟨q, howner, hpath⟩
  have hq := turn.allFit_log.owner_mem_opened ha hat howner
  have hnodup := Errand.nodup_path_opened form turn.labels
  rw [Errand.opened_append_openScope, List.map_append] at hnodup
  -- The scope at this path would be opened a second time.
  exact (List.nodup_append.mp hnodup).2.2 _ (List.mem_map_of_mem hq) p.path
    List.mem_cons_self hpath

/-- Nothing that was visited is owned by a node whose scope is only opened now. -/
theorem filter_visited_eq_nil {rule : Rule}
    (turn : Turn d s log (.openScope p rule form) w after) :
    (Errand.visited log).filter (·.ownedBy d form p) = [] := by
  refine List.filter_eq_nil_iff.mpr fun v hv => ?_
  exact turn.not_ownedBy (Errand.mem_visited.mp hv) .visit

end Turn

/-! ### Openings -/

namespace Errand

variable {d : Dialect} {s : Settings} {form : ScopeForm} {start o : Occurrence}

/-- The scopes that a script opens are those of the nodes that it visits and can read. -/
theorem mem_opened_script_iff :
    o ∈ opened form (script d s [.visit start]) ↔
      o ∈ visited (script d s [.visit start]) ∧ d.opens o = some form ∧
        (d.ignored? s o.place).isSome := by
  rw [mem_opened, mem_visited]
  constructor
  · rintro ⟨rule, hmem⟩
    obtain ⟨first, hfirst, hchain⟩ := mem_script_iff.mp hmem
    -- The last step to an opening starts from the visit of the same node.
    rcases hchain.cases_tail with heq | ⟨last, hlast, hstep⟩
    · cases List.mem_singleton.mp hfirst
      cases heq
    · obtain ⟨v, ignored, rfl, hignored, ⟨c, number, -, hvisit⟩ |
        ⟨rule', form', hrule, hopens, hopen | hclose⟩⟩ := mem_next_iff.mp hstep
      · cases hvisit
      · cases hopen
        refine ⟨mem_script_iff.mpr ⟨first, hfirst, hlast⟩, ?_, ?_⟩
        · rw [Dialect.opens, hrule, Option.bind_some, hopens]
        · rw [hignored, Option.isSome_some]
      · cases hclose
  · rintro ⟨hvisit, hopens, hread⟩
    obtain ⟨first, hfirst, hchain⟩ := mem_script_iff.mp hvisit
    obtain ⟨rule, hrule, hform⟩ := Option.bind_eq_some_iff.mp hopens
    obtain ⟨ignored, hignored⟩ := Option.isSome_iff_exists.mp hread
    have hstep : Errand.openScope o rule form ∈ (Errand.visit o).next d s :=
      mem_next_iff.mpr ⟨o, ignored, rfl, hignored, Or.inr ⟨rule, form, hrule, hform, Or.inl rfl⟩⟩
    exact ⟨rule, mem_script_iff.mpr ⟨first, hfirst, hchain.tail hstep⟩⟩

end Errand

namespace Walk

variable {d : Dialect} {s : Settings}

/-- A node that is visited without a failure can be read. -/
theorem ignored?_of_visit {w after : Walk} {p : Placed}
    (h : w.perform d s (.visit p) = .ok after) : (d.ignored? s p).isSome := by
  simp only [perform] at h
  unfold Dialect.ignored?
  cases hrule : d.ruleFor p.node with
  | none => rfl
  | some rule =>
    simp only [hrule] at h
    cases hread : rule.read s p with
    | error fault =>
      rw [hread] at h
      cases h
    | ok c => simp [hread, Except.toOption]

end Walk

namespace Dialect

variable {d : Dialect} {s : Settings} {root : Document}

/-- What holds before the first turn and is kept by every turn holds when a traversal has
come to its end. -/
theorem invariant_of_walk {P : List Errand → Walk → Prop} {w : Walk}
    (done : d.walk s root = .ok w) (hstart : ∀ lines, P [] { tree := .start lines })
    (hstep : ∀ log e before after, Turn d s log e before after → P log before →
      P (log ++ [e]) after) :
    P (d.journal s root).errands w := by
  obtain ⟨-, lines, hperform⟩ := performAll_of_walk done
  have hlabels := pairwise_label_errands d s root
  have hfit := allFit_errands d s root
  -- Induction on the errands from the end. Those before the last one make a run as well.
  generalize (d.journal s root).errands = log at hperform hlabels hfit
  clear done
  induction log using List.reverseRecOn generalizing w with
  | nil =>
    cases hperform
    exact hstart lines
  | append_singleton log e ih =>
    obtain ⟨before, hbefore, hafter⟩ := Walk.performAll_append_singleton hperform
    have hlabels' := hlabels.sublist (List.sublist_append_left log [e])
    refine hstep log e before w ⟨?_, hfit, hlabels, hafter⟩ ?_
    · exact ScopeTree.tracks_performAll hlabels' hbefore
    · exact ih hbefore hlabels' (Errand.allFit_append.mp hfit).1

/-- All nodes that a traversal visits can be read if it comes to its end. -/
theorem ignored?_of_visited {w : Walk} (done : d.walk s root = .ok w) {o : Occurrence}
    (h : o ∈ (d.journal s root).visited) : (d.ignored? s o.place).isSome := by
  refine invariant_of_walk (P := fun log _ => ∀ o ∈ Errand.visited log,
    (d.ignored? s o.place).isSome) done ?_ ?_ o h
  · intro lines o ho
    cases ho
  · intro log e before after turn hlog o ho
    rw [Errand.mem_visited, List.mem_append, List.mem_singleton] at ho
    rcases ho with ho | rfl
    · exact hlog o (Errand.mem_visited.mpr ho)
    · exact Walk.ignored?_of_visit turn.performed

end Dialect

/-! ### The scopes of a journal -/

namespace Journal

/-- The occurrences whose scopes of the given form were opened, in order. -/
def opened (j : Journal) (form : ScopeForm) : List Occurrence :=
  Errand.opened form j.errands

/-- The number of the scope that was opened for an occurrence. -/
def scopeOf (j : Journal) (form : ScopeForm) (o : Occurrence) : Option Nat :=
  let opening := j.entries.find? fun entry => (entry.errand.opened? form).any (·.path == o.path)
  opening.map fun entry => entry.before.tree.upcoming form

end Journal

namespace Dialect

variable {d : Dialect} {s : Settings} {root : Document}

/-- A traversal that comes to its end opens the scopes of the nodes that have one, each of
them once. -/
theorem opened_perm {w : Walk} (done : d.walk s root = .ok w) (form : ScopeForm) :
    ((d.journal s root).opened form).Perm
      ((d.journal s root).visited.filter fun o => d.opens o = some form) := by
  have hopened : ((d.journal s root).opened form).Nodup :=
    (Errand.nodup_path_opened form (pairwise_label_errands d s root)).of_map
  have hvisited : (d.journal s root).visited.Nodup := (nodup_path_visited d s root).of_map
  refine (List.perm_ext_iff_of_nodup hopened (hvisited.filter _)).mpr fun o => ?_
  obtain ⟨hscript, -⟩ := performAll_of_walk done
  rw [List.mem_filter, decide_eq_true_iff]
  constructor
  · intro ho
    rw [Journal.opened, hscript, Errand.mem_opened_script_iff, ← hscript] at ho
    exact ⟨ho.1, ho.2.1⟩
  · rintro ⟨ho, hopens⟩
    have hread := ignored?_of_visited done ho
    rw [Journal.visited, hscript] at ho
    rw [Journal.opened, hscript]
    exact Errand.mem_opened_script_iff.mpr ⟨ho, hopens, hread⟩

/-- The number of a scope is the one that it got when it was opened. -/
theorem scopeOf_of_mem_opened {form : ScopeForm} {o : Occurrence}
    (h : o ∈ (d.journal s root).opened form) :
    (d.journal s root).scopeOf form o =
      some (Errand.numberOf form (d.journal s root).errands o) := by
  -- There is an entry that opens the scope, so the search for it succeeds.
  obtain ⟨rule, herrand⟩ := Errand.mem_opened.mp h
  obtain ⟨known, hknown, hopening⟩ := List.mem_map.mp herrand
  have hfound : ((d.journal s root).entries.find? fun entry =>
      (entry.errand.opened? form).any (·.path == o.path)).isSome := by
    refine List.find?_isSome.mpr ⟨known, hknown, ?_⟩
    simp [hopening, Errand.opened?]
  obtain ⟨entry, hentry⟩ := Option.isSome_iff_exists.mp hfound
  obtain ⟨htest, earlier, later, hentries, -⟩ := List.find?_eq_some_iff_append.mp hentry
  obtain ⟨v, hv, hpath⟩ := (Option.any_eq_true _ _).mp htest
  obtain ⟨rule', herrand'⟩ := Errand.opened?_eq_some.mp hv
  -- What it opens has the path of `o`, and gets the number that is next.
  have hlabels := pairwise_label_errands d s root
  have herrands : (d.journal s root).errands =
      earlier.map Entry.errand ++ .openScope v rule' form :: later.map Entry.errand := by
    rw [Journal.errands, hentries, List.map_append, List.map_cons, herrand']
  have hsame : Errand.numberOf form (d.journal s root).errands o =
      Errand.numberOf form (d.journal s root).errands v := by
    rw [Errand.numberOf, Errand.numberOf, beq_iff_eq.mp hpath]
  rw [herrands] at hlabels
  rw [hsame, herrands, Errand.numberOf_opened hlabels, Journal.scopeOf, hentry, Option.map_some,
    (fits_and_tracks hentries).2.upcoming form]

/-- Scopes are numbered in the order they are opened. -/
theorem map_scopeOf (d : Dialect) (s : Settings) (root : Document) (form : ScopeForm) :
    ((d.journal s root).opened form).map ((d.journal s root).scopeOf form) =
      (List.range' form.first ((d.journal s root).opened form).length).map some := by
  refine List.ext_getElem? fun k => ?_
  rw [List.getElem?_map, List.getElem?_map]
  cases hk : ((d.journal s root).opened form)[k]? with
  | none =>
    have hlength := List.getElem?_eq_none_iff.mp hk
    rw [List.getElem?_eq_none (by rwa [List.length_range']), Option.map_none, Option.map_none]
  | some o =>
    obtain ⟨hlt, -⟩ := List.getElem?_eq_some_iff.mp hk
    rw [Option.map_some, scopeOf_of_mem_opened (List.mem_of_getElem? hk),
      Errand.numberOf_of_getElem? (pairwise_label_errands d s root) hk,
      List.getElem?_range' hlt, Option.map_some, Nat.one_mul]

/-- What the journal of a traversal says that came to its end. All that can be reached was
visited once, each visited node that has a scope got one, and scopes have numbers in the order
they were opened. -/
structure Traversed (d : Dialect) (s : Settings) (root : Document) (w : Walk) : Prop where
  outcome : (d.journal s root).outcome = .ok w
  reached : ∀ o, o ∈ (d.journal s root).visited ↔ d.Reaches s (d.top root) o
  once : ((d.journal s root).visited.map Occurrence.path).Nodup
  opened : ∀ form, ((d.journal s root).opened form).Perm
    ((d.journal s root).visited.filter fun o => d.opens o = some form)
  numbered : ∀ form, ((d.journal s root).opened form).map ((d.journal s root).scopeOf form) =
    (List.range' form.first ((d.journal s root).opened form).length).map some

/-- The journal of a traversal that comes to its end. -/
theorem traversed_of_walk {w : Walk} (done : d.walk s root = .ok w) : d.Traversed s root w where
  outcome := by rw [outcome_journal_eq_walk, done]
  reached _ := ⟨reaches_of_mem_visited, mem_visited_of_reaches done⟩
  once := nodup_path_visited d s root
  opened := opened_perm done
  numbered := map_scopeOf d s root

end Dialect

end CodeMetrics
