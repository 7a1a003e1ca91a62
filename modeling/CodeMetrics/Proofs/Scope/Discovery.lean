import CodeMetrics.Proofs.Decimal.Text
import CodeMetrics.Proofs.Scope.Attribution
import CodeMetrics.Proofs.Traversal.Concatenation

/-!
# `CodeMetrics.Proofs.Scope.Discovery`: the order in which scopes are opened

Functions are listed in the order in which their scopes are opened. That order can be read off the
tree (`Dialect.OpensBefore`). What is nested under a scope key of a node is opened before the scope
of the node, and what is nested under any other key after it. What is nested under two children of
one node is opened in the order of the children, those under scope keys first.

The script of a visit is made of the scripts of the errands below it, one after the other, so
errands that are pending in some order are carried out in that order with all that comes out of
them (`sublist_script`). The rest is about the few errands below one node.

Functions without a name of their own get numbers in the same order, from one on and without a
gap. Classes get none.
-/

set_option autoImplicit false

namespace CodeMetrics

/-! ### Pairs in a list -/

/-- Two entries of a list stand in it one after the other. -/
theorem pair_sublist_of_getElem? {α : Type} {l : List α} {m n : Nat} {x y : α}
    (hm : l[m]? = some x) (hn : l[n]? = some y) (h : m < n) : [x, y].Sublist l := by
  have hx : x ∈ l.take (m + 1) :=
    List.mem_of_getElem? (i := m) (by rw [List.getElem?_take_of_lt (by omega), hm])
  have hy : y ∈ l.drop (m + 1) :=
    List.mem_of_getElem? (i := n - (m + 1))
      (by rw [List.getElem?_drop, ← hn]; congr 1; omega)
  rw [← List.take_append_drop (m + 1) l]
  exact (List.singleton_sublist.mpr hx).append (List.singleton_sublist.mpr hy)

/-- Without repetitions, no two entries stand one after the other in both orders. -/
theorem not_pair_sublist_swap {α : Type} {l : List α} (hl : l.Nodup) {x y : α}
    (h : [x, y].Sublist l) : ¬ [y, x].Sublist l := by
  induction l with
  | nil => cases h
  | cons first rest ih =>
    obtain ⟨hfirst, hrest⟩ := List.nodup_cons.mp hl
    intro h'
    cases h with
    | cons _ h =>
      cases h' with
      | cons _ h' => exact ih hrest h h'
      | cons_cons _ h' => exact hfirst (h.subset (List.mem_cons_of_mem _ List.mem_cons_self))
    | cons_cons _ h =>
      cases h' with
      | cons _ h' => exact hfirst (h'.subset (List.mem_cons_of_mem _ List.mem_cons_self))
      | cons_cons _ h' => exact hfirst (h.subset List.mem_cons_self)

/-- Children are selected in the order of their numbers. -/
theorem Occurrence.pair_sublist_childrenWhere (o : Occurrence) {cs : List Child}
    (keep : Child → Bool) {m n : Nat} {c c' : Child} (hm : cs[m]? = some c) (hn : cs[n]? = some c')
    (h : m < n) (hc : keep c) (hc' : keep c') :
    [o.child c m, o.child c' n].Sublist (o.childrenWhere cs keep) := by
  have hpair : [(c, m), (c', n)].Sublist cs.zipIdx :=
    pair_sublist_of_getElem? (m := m) (n := n) (by simp [hm]) (by simp [hn]) h
  have hkept := (hpair.filter fun entry => keep entry.1).map fun entry => o.child entry.1 entry.2
  rw [childrenWhere]
  simpa [hc, hc'] using hkept

/-! ### The order below a node -/

/-- Whether the children under a key belong outside of the scope that a node opens. -/
def Rule.keepsOutside (rule : Rule) (key : String) : Bool :=
  rule.opens.isSome && rule.scopeKeys.contains key

/-- Whether the children under a key belong outside of the scope that an occurrence opens. -/
def Dialect.keepsOutside (d : Dialect) (o : Occurrence) (key : String) : Bool :=
  ((d.ruleFor o.place.node).getD {}).keepsOutside key

/-- Whether the first of two children of a node has its turn before the second, by their keys and
their numbers. Those that belong outside come first, and otherwise the numbers decide. -/
def Rule.childBefore (rule : Rule) (key : String) (m : Nat) (key' : String) (n : Nat) : Bool :=
  if rule.keepsOutside key = rule.keepsOutside key' then decide (m < n)
  else rule.keepsOutside key

namespace Errand

variable {rule : Rule} {o : Occurrence} {ignored : List String} {c c' : Child} {m n : Nat}

/-- What belongs outside is visited before the scope is opened. -/
theorem pair_sublist_below_outside {form : ScopeForm} (hform : rule.opens = some form)
    (hc : (o.place.node.children ignored)[m]? = some c) (hkey : rule.keepsOutside c.key) :
    [visit (o.child c m), openScope o rule form].Sublist (below rule o ignored) := by
  rw [Rule.keepsOutside, hform, Option.isSome_some, Bool.true_and] at hkey
  have hchild : visit (o.child c m) ∈ (o.childrenWhere (o.place.node.children ignored)
      fun c => rule.scopeKeys.contains c.key).map visit :=
    List.mem_map_of_mem (Occurrence.mem_childrenWhere.mpr ⟨c, m, hc, hkey, rfl⟩)
  simp only [below, hform, List.append_assoc]
  exact (List.singleton_sublist.mpr hchild).append
    (List.singleton_sublist.mpr (List.mem_append_left _ List.mem_cons_self))

/-- What belongs inside is visited after the scope is opened. -/
theorem pair_sublist_below_inside {form : ScopeForm} (hform : rule.opens = some form)
    (hc : (o.place.node.children ignored)[m]? = some c) (hkey : rule.keepsOutside c.key = false) :
    [openScope o rule form, visit (o.child c m)].Sublist (below rule o ignored) := by
  rw [Rule.keepsOutside, hform, Option.isSome_some, Bool.true_and] at hkey
  have hchild : visit (o.child c m) ∈ (o.childrenWhere (o.place.node.children ignored)
      fun c => !rule.scopeKeys.contains c.key).map visit :=
    List.mem_map_of_mem (Occurrence.mem_childrenWhere.mpr ⟨c, m, hc, by rw [hkey]; rfl, rfl⟩)
  simp only [below, hform, List.append_assoc]
  refine List.Sublist.trans ?_ (List.sublist_append_right _ _)
  exact (List.Sublist.refl [openScope o rule form]).append
    (List.singleton_sublist.mpr (List.mem_append_left _ hchild))

/-- Children are visited in their order. -/
theorem pair_sublist_below_children (hc : (o.place.node.children ignored)[m]? = some c)
    (hc' : (o.place.node.children ignored)[n]? = some c')
    (h : rule.childBefore c.key m c'.key n) :
    [visit (o.child c m), visit (o.child c' n)].Sublist (below rule o ignored) := by
  unfold Rule.childBefore Rule.keepsOutside at h
  unfold below
  cases hform : rule.opens with
  | none =>
    simp only [hform, Option.isSome_none, Bool.false_and, if_true, decide_eq_true_eq] at h
    exact (o.pair_sublist_childrenWhere (fun _ => true) hc hc' h rfl rfl).map visit
  | some form =>
    simp only [hform, Option.isSome_some, Bool.true_and] at h
    simp only [List.append_assoc]
    cases hkey : rule.scopeKeys.contains c.key <;> cases hkey' : rule.scopeKeys.contains c'.key
    · -- Both inside.
      simp only [hkey, hkey', if_true, decide_eq_true_eq] at h
      have hpair := (o.pair_sublist_childrenWhere (fun c => !rule.scopeKeys.contains c.key) hc hc' h
        (by rw [hkey]; rfl) (by rw [hkey']; rfl)).map visit
      exact (hpair.trans (List.sublist_append_left _ _)).trans
        ((List.sublist_append_right _ _).trans (List.sublist_append_right _ _))
    · simp [hkey, hkey'] at h
    · -- The first one outside and the second one inside.
      have hfirst := List.mem_map_of_mem (f := visit) (Occurrence.mem_childrenWhere.mpr
        ⟨c, m, hc, hkey, rfl⟩ : o.child c m ∈ o.childrenWhere (o.place.node.children ignored)
          fun c => rule.scopeKeys.contains c.key)
      have hsecond := List.mem_map_of_mem (f := visit) (Occurrence.mem_childrenWhere.mpr
        ⟨c', n, hc', by rw [hkey']; rfl, rfl⟩ : o.child c' n ∈ o.childrenWhere
          (o.place.node.children ignored) fun c => !rule.scopeKeys.contains c.key)
      exact (List.singleton_sublist.mpr hfirst).append (List.singleton_sublist.mpr
        (List.mem_append_right _ (List.mem_append_left _ hsecond)))
    · -- Both outside.
      simp only [hkey, hkey', if_true, decide_eq_true_eq] at h
      have hpair := (o.pair_sublist_childrenWhere (fun c => rule.scopeKeys.contains c.key) hc hc' h
        hkey hkey').map visit
      exact hpair.trans (List.sublist_append_left _ _)

/-! ### The order of openings -/

/-- The occurrence whose scope is opened, if one is. -/
def opening? : Errand → Option Occurrence
  | openScope o _ _ => some o
  | _ => none

/-- The occurrences whose scopes some errands open, functions and classes alike, in order. -/
def openings (es : List Errand) : List Occurrence :=
  es.filterMap opening?

theorem mem_openings {es : List Errand} : o ∈ openings es ↔ ∃ form, o ∈ opened form es := by
  simp only [openings, List.mem_filterMap, mem_opened]
  constructor
  · rintro ⟨e, he, ho⟩
    cases e with
    | openScope v rule form =>
      cases ho
      exact ⟨form, rule, he⟩
    | _ => cases ho
  · rintro ⟨form, rule, he⟩
    exact ⟨_, he, rfl⟩

/-- Where no label occurs twice, no scope is opened twice. -/
theorem nodup_path_openings {es : List Errand} (h : es.Pairwise fun a b => a.label ≠ b.label) :
    ((openings es).map Occurrence.path).Nodup := by
  rw [List.Nodup, List.pairwise_map, openings, List.pairwise_filterMap]
  refine h.imp fun {a b} hne u hu v hv heq => hne ?_
  cases a with
  | openScope o rule form =>
    cases b with
    | openScope o' rule' form' =>
      cases hu
      cases hv
      rw [label, label, heq]
    | _ => cases hv
  | _ => cases hu

variable {d : Dialect} {s : Settings}

/-- Errands that are pending in some order are carried out in that order, with all that comes out
of them. -/
theorem sublist_script {es fs : List Errand} (h : es.Sublist fs) :
    (script d s es).Sublist (script d s fs) := by
  induction h with
  | slnil => exact List.Sublist.refl _
  | @cons es fs e _ ih =>
    -- What is left out comes with a script of its own, before the others.
    rw [← List.singleton_append, script_append]
    exact ih.trans (List.sublist_append_right _ _)
  | @cons_cons es fs e _ ih =>
    rw [← List.singleton_append, ← List.singleton_append (l := fs), script_append, script_append]
    exact ih.append_left _

/-- So are the openings that come out of the first one before those that come out of the second. -/
theorem pair_sublist_openings {es : List Errand} {a b : Errand} {u v : Occurrence}
    (h : [a, b].Sublist es) (hu : u ∈ openings (script d s [a]))
    (hv : v ∈ openings (script d s [b])) : [u, v].Sublist (openings (script d s es)) := by
  have hscript : (script d s [a] ++ script d s [b]).Sublist (script d s es) := by
    rw [← script_append]
    exact sublist_script h
  have hopenings := hscript.filterMap opening?
  rw [List.filterMap_append] at hopenings
  exact ((List.singleton_sublist.mpr hu).append (List.singleton_sublist.mpr hv)).trans hopenings

/-- An opening opens its scope. -/
theorem mem_openings_openScope {form : ScopeForm} :
    o ∈ openings (script d s [.openScope o rule form]) := by
  rw [script]
  exact List.mem_cons_self

/-- The script of a visit holds the scripts of all that comes out of it. -/
theorem sublist_script_visit {es : List Errand} (h : es.Sublist ((Errand.visit o).next d s)) :
    (script d s es).Sublist (script d s [.visit o]) := by
  rw [script, List.append_nil]
  exact (sublist_script h).cons _

/-- The script of a visit holds those of the visits of all that can be reached. -/
theorem sublist_script_of_reaches {start v : Occurrence} (h : d.Reaches s start v) :
    (script d s [.visit v]).Sublist (script d s [.visit start]) := by
  induction h with
  | start => exact List.Sublist.refl _
  | child _ hignored hc ih =>
    refine (sublist_script_visit (List.singleton_sublist.mpr ?_)).trans ih
    exact mem_next_iff.mpr ⟨_, _, rfl, hignored, .inl ⟨_, _, hc, rfl⟩⟩

end Errand

/-- The occurrences whose scopes were opened, functions and classes alike, in order. -/
def Journal.openings (j : Journal) : List Occurrence :=
  Errand.openings j.errands

/-! ### The order by the tree -/

namespace Dialect

/-- An occurrence is nested under the child of `o` with the given number, or is that child. -/
structure NestedUnder (d : Dialect) (s : Settings) (o : Occurrence) (c : Child) (number : Nat)
    (v : Occurrence) : Prop where
  child : ∃ ignored, d.ignored? s o.place = some ignored ∧
    (o.place.node.children ignored)[number]? = some c
  reaches : d.Reaches s (o.child c number) v

/-- The scope of the first occurrence is opened before that of the second, by the places where they
hang. The children of a node have numbers in the order of its keys, and under one key in the order
of the list. -/
inductive OpensBefore (d : Dialect) (s : Settings) : Occurrence → Occurrence → Prop
  /-- What is nested under a scope key comes before the scope. -/
  | outside {o v : Occurrence} {c : Child} {number : Nat} (nested : d.NestedUnder s o c number v)
      (apart : d.keepsOutside o c.key) : OpensBefore d s v o
  /-- What is nested under any other key comes after. -/
  | inside {o v : Occurrence} {c : Child} {number : Nat} (nested : d.NestedUnder s o c number v)
      (within : d.keepsOutside o c.key = false) : OpensBefore d s o v
  /-- Otherwise the order is that of two children of a node. -/
  | children {o u v : Occurrence} {c c' : Child} {m n : Nat} (first : d.NestedUnder s o c m u)
      (second : d.NestedUnder s o c' n v)
      (before : ((d.ruleFor o.place.node).getD {}).childBefore c.key m c'.key n) :
      OpensBefore d s u v

variable {d : Dialect} {s : Settings} {root : Document}

/-- The parent of what can be reached can be reached. -/
theorem Reaches.parent {o : Occurrence} {c : Child} {number : Nat}
    (h : d.Reaches s (d.top root) (o.child c number)) : d.Reaches s (d.top root) o := by
  generalize hv : o.child c number = v at h
  cases h with
  | start => exact absurd (congrArg Occurrence.trail hv) (List.cons_ne_nil _ _)
  | @child o' ignored c' number' hreach hignored hc =>
    -- The way down to a child holds the place of its parent and the way down to it.
    have htrail := congrArg Occurrence.trail hv
    obtain ⟨hstep, habove⟩ := List.cons.inj htrail
    have hplace : o.place = o'.place := congrArg Descent.origin hstep
    have hsame : o = o' := by
      cases o
      cases o'
      cases hplace
      cases habove
      rfl
    rw [hsame]
    exact hreach

/-- Whatever lies on the way to something that can be reached can be reached. -/
theorem Reaches.between {x v : Occurrence} (h : d.Reaches s x v)
    (htop : d.Reaches s (d.top root) v) : d.Reaches s (d.top root) x := by
  induction h with
  | start => exact htop
  | child _ _ _ ih => exact ih htop.parent

/-- What is opened in a script can be reached. -/
theorem reaches_of_mem_openings {start v : Occurrence}
    (h : v ∈ Errand.openings (Errand.script d s [.visit start])) : d.Reaches s start v := by
  obtain ⟨form, hform⟩ := Errand.mem_openings.mp h
  exact Errand.visit_mem_script_iff.mp
    (Errand.mem_visited.mp (Errand.mem_opened_script_iff.mp hform).1)

/-- What is nested under a child of a node, and is opened at all, is opened in the script of the
visit of the child. -/
theorem NestedUnder.mem_openings {start o v : Occurrence} {c : Child} {number : Nat}
    (h : d.NestedUnder s o c number v)
    (hv : v ∈ Errand.openings (Errand.script d s [.visit start])) :
    v ∈ Errand.openings (Errand.script d s [.visit (o.child c number)]) := by
  obtain ⟨form, hform⟩ := Errand.mem_openings.mp hv
  obtain ⟨-, hopens, hread⟩ := Errand.mem_opened_script_iff.mp hform
  exact Errand.mem_openings.mpr ⟨form, Errand.mem_opened_script_iff.mpr
    ⟨Errand.mem_visited.mpr (Errand.visit_mem_script_iff.mpr h.reaches), hopens, hread⟩⟩

/-- The errands that come out of the visit of a node whose keys can be read. -/
theorem next_visit {o : Occurrence} {ignored : List String}
    (h : d.ignored? s o.place = some ignored) :
    (Errand.visit o).next d s = Errand.below ((d.ruleFor o.place.node).getD {}) o ignored := by
  simp only [Errand.next, h]

/-- The rule of a node whose scope is opened. -/
theorem opens_of_mem_openings {start o : Occurrence}
    (h : o ∈ Errand.openings (Errand.script d s [.visit start])) :
    ∃ form, ((d.ruleFor o.place.node).getD {}).opens = some form := by
  obtain ⟨form, hform⟩ := Errand.mem_openings.mp h
  obtain ⟨-, hopens, -⟩ := Errand.mem_opened_script_iff.mp hform
  obtain ⟨rule, hrule, hopens⟩ := Option.bind_eq_some_iff.mp hopens
  exact ⟨form, by rw [hrule, Option.getD_some, hopens]⟩

/-- Scopes are opened in the order that the tree gives. -/
theorem pair_sublist_openings_of_opensBefore {u v : Occurrence} (h : d.OpensBefore s u v)
    (hu : u ∈ Errand.openings (Errand.script d s [.visit (d.top root)]))
    (hv : v ∈ Errand.openings (Errand.script d s [.visit (d.top root)])) :
    [u, v].Sublist (Errand.openings (Errand.script d s [.visit (d.top root)])) := by
  -- It is enough to find both in the script of the visit of one node that can be reached.
  have hwithin : ∀ {o : Occurrence} {es : List Errand}, d.Reaches s (d.top root) o →
      es.Sublist ((Errand.visit o).next d s) →
      [u, v].Sublist (Errand.openings (Errand.script d s es)) →
        [u, v].Sublist (Errand.openings (Errand.script d s [.visit (d.top root)])) := by
    intro o es hreach hes hpair
    refine hpair.trans (List.Sublist.filterMap _ ?_)
    exact (Errand.sublist_script_visit hes).trans (Errand.sublist_script_of_reaches hreach)
  cases h with
  | outside nested apart =>
    obtain ⟨ignored, hignored, hc⟩ := nested.child
    obtain ⟨form, hform⟩ := opens_of_mem_openings hv
    have hpair := Errand.pair_sublist_below_outside hform hc apart
    rw [← next_visit hignored] at hpair
    exact hwithin (reaches_of_mem_openings hv) hpair
      (Errand.pair_sublist_openings (List.Sublist.refl _) (nested.mem_openings hu)
        Errand.mem_openings_openScope)
  | inside nested within =>
    obtain ⟨ignored, hignored, hc⟩ := nested.child
    obtain ⟨form, hform⟩ := opens_of_mem_openings hu
    have hpair := Errand.pair_sublist_below_inside hform hc within
    rw [← next_visit hignored] at hpair
    exact hwithin (reaches_of_mem_openings hu) hpair
      (Errand.pair_sublist_openings (List.Sublist.refl _) Errand.mem_openings_openScope
        (nested.mem_openings hv))
  | children first second before =>
    obtain ⟨ignored, hignored, hc⟩ := first.child
    obtain ⟨ignored', hignored', hc'⟩ := second.child
    cases hignored.symm.trans hignored'
    have hpair := Errand.pair_sublist_below_children hc hc' before
    rw [← next_visit hignored] at hpair
    exact hwithin (first.reaches.between (reaches_of_mem_openings hu)).parent hpair
      (Errand.pair_sublist_openings (List.Sublist.refl _) (first.mem_openings hu)
        (second.mem_openings hv))

/-- What can be reached is the start itself, or nested under one of its children. -/
theorem Reaches.eq_or_nestedUnder {start v : Occurrence} (h : d.Reaches s start v) :
    v = start ∨ ∃ c number, d.NestedUnder s start c number v := by
  induction h with
  | start => exact .inl rfl
  | @child o ignored c number _ hignored hc ih =>
    right
    rcases ih with rfl | ⟨c', number', hnested⟩
    · exact ⟨c, number, ⟨ignored, hignored, hc⟩, .start⟩
    · exact ⟨c', number', hnested.child, hnested.reaches.child hignored hc⟩

/-- Of two children of a node, one has its turn before the other. -/
theorem childBefore_or (rule : Rule) (key key' : String) {m n : Nat} (h : m ≠ n) :
    rule.childBefore key m key' n ∨ rule.childBefore key' n key m := by
  unfold Rule.childBefore
  cases rule.keepsOutside key <;> cases rule.keepsOutside key' <;> simp <;> omega

/-- Of two occurrences in a tree, the places always tell which one comes first. -/
theorem opensBefore_or {start u v : Occurrence} (hu : d.Reaches s start u)
    (hv : d.Reaches s start v) : u = v ∨ d.OpensBefore s u v ∨ d.OpensBefore s v u := by
  -- Down to the node where the ways to the two part.
  induction hsize : start.place.node.size using Nat.strongRecOn generalizing start with
  | ind size ih =>
    have hnested : ∀ {x : Occurrence} {c : Child} {number : Nat},
        d.NestedUnder s start c number x → d.OpensBefore s x start ∨ d.OpensBefore s start x := by
      intro x c number h
      cases hkey : d.keepsOutside start c.key with
      | true => exact .inl (.outside h hkey)
      | false => exact .inr (.inside h hkey)
    rcases hu.eq_or_nestedUnder with rfl | ⟨c, m, hc⟩
    · rcases hv.eq_or_nestedUnder with rfl | ⟨c', n, hc'⟩
      · exact .inl rfl
      · exact .inr (hnested hc').symm
    · rcases hv.eq_or_nestedUnder with rfl | ⟨c', n, hc'⟩
      · exact .inr (hnested hc)
      · obtain ⟨ignored, hignored, hchild⟩ := hc.child
        obtain ⟨ignored', hignored', hchild'⟩ := hc'.child
        cases hignored.symm.trans hignored'
        by_cases hmn : m = n
        · subst hmn
          cases hchild.symm.trans hchild'
          have hlt : c.node.size < size :=
            hsize ▸ Document.size_lt_of_mem_children (List.mem_of_getElem? hchild)
          exact ih _ hlt hc.reaches hc'.reaches rfl
        · exact .inr ((childBefore_or _ c.key c'.key hmn).imp (.children hc hc') (.children hc' hc))

/-- The scopes of a form that a script opens are those of the nodes that have a scope of the
form. -/
theorem opened_script_eq (form : ScopeForm) (start : Occurrence) :
    Errand.opened form (Errand.script d s [.visit start]) =
      (Errand.openings (Errand.script d s [.visit start])).filter
        fun o => d.opens o = some form := by
  have hopens : ∀ o rule other, Errand.openScope o rule other ∈ Errand.script d s [.visit start] →
      d.opens o = some other := by
    intro o rule other hmem
    exact (Errand.mem_opened_script_iff.mp (Errand.mem_opened.mpr ⟨rule, hmem⟩)).2.1
  unfold Errand.opened Errand.openings
  rw [List.filter_filterMap]
  refine List.filterMap_congr fun e he => ?_
  cases e with
  | visit o => rfl
  | closeScope o other => rfl
  | openScope o rule other =>
    have hother := hopens o rule other he
    by_cases hform : other = form
    · simp [Errand.opened?, Errand.opening?, Option.filter, hother, hform]
    · simp [Errand.opened?, Errand.opening?, Option.filter, hother, hform]

end Dialect

/-! ### Names -/

namespace ScopeTree

/-- Different numbers give different names. -/
theorem anonymousName_injective {m n : Nat} (h : anonymousName m = anonymousName n) : m = n := by
  have htext : ∀ n : Nat, Decimal.intText n = Decimal.natText n := fun n => by
    rw [Decimal.intText, if_neg (by omega), Int.natAbs_natCast]
  unfold anonymousName at h
  rw [String.append_left_inj, String.append_right_inj, ← htext, ← htext] at h
  exact Int.ofNat.inj (Decimal.intText_injective h)

/-- A function that has a name of its own keeps it. -/
theorem getElem?_namesFrom {taken k : Nat} {names : List (Option Document)} {name : Document}
    (h : names[k]? = some (some name)) : (namesFrom taken names)[k]? = some name := by
  induction names generalizing taken k with
  | nil => cases h
  | cons first rest ih =>
    cases k with
    | zero =>
      rw [List.getElem?_cons_zero] at h
      cases h
      rfl
    | succ k =>
      rw [List.getElem?_cons_succ] at h
      cases first <;> exact ih h

/-- The others have the numbers after `taken`, without a gap. -/
theorem filter_namesFrom (taken : Nat) (names : List (Option Document)) :
    ((names.zip (namesFrom taken names)).filter fun pair => pair.1.isNone).map Prod.snd =
      (List.range (names.countP Option.isNone)).map fun i =>
        .string (anonymousName (taken + i + 1)) := by
  induction names generalizing taken with
  | nil => rfl
  | cons first rest ih =>
    cases first with
    | some name => simpa [namesFrom] using ih taken
    | none =>
      have hshift : ∀ i, taken + 1 + i + 1 = taken + (i + 1) + 1 := fun i => by omega
      simp [namesFrom, ih, List.range_succ_eq_map, Function.comp_def, hshift]

/-- The functions and classes of a tree have the names of the nodes that opened them. Functions
without a name of their own are numbered, in the order they were opened. -/
structure NamedAfter (t : ScopeTree Int String) (d : Dialect)
    (functions classes : List Occurrence) : Prop where
  /-- A function whose node has a name carries it. -/
  static : ∀ (k : Nat) (o : Occurrence) (name : Document), functions[k]? = some o →
    o.staticName d = some name → ∃ f : Scope Int String, t.functions[k]? = some f ∧
      f.name = some name
  /-- The others have the numbers from one on, without a gap. -/
  numbered : ((functions.zip t.functions).filter fun pair => (pair.1.staticName d).isNone).map
      (fun pair => pair.2.name) =
    (List.range (functions.countP fun o => (o.staticName d).isNone)).map fun i =>
      some (.string (anonymousName (i + 1)))
  /-- No number is handed out twice. -/
  distinct : (((functions.zip t.functions).filter fun pair => (pair.1.staticName d).isNone).map
    (fun pair => pair.2.name)).Nodup
  /-- No more numbers are handed out than that. -/
  anonymous : t.anonymous = functions.countP fun o => (o.staticName d).isNone
  /-- A class has the name of its node, or none. -/
  classes : t.classes.map (·.name) = classes.map (·.staticName d)

/-- Changing the innermost open class leaves names as they are. -/
theorem map_name_modifyClass (t : ScopeTree Int String)
    {f : ClassScope Int String → ClassScope Int String} (hf : ∀ c, (f c).name = c.name) :
    (t.modifyClass f).classes.map (·.name) = t.classes.map (·.name) := by
  refine List.ext_getElem? fun k => ?_
  rw [List.getElem?_map, List.getElem?_map, getElem?_modifyClass, Option.map_map]
  congr 1
  funext c
  rw [Function.comp]
  split
  · exact hf c
  · rfl

end ScopeTree

namespace Errand

/-- The name of the class that is opened, if one is. -/
def className? : Errand → Option (Option Document)
  | openScope o rule .classBody => some (rule.naming.bind (·.name? o.place))
  | _ => none

/-- The names of the classes that some errands open, in order. -/
def classNames (es : List Errand) : List (Option Document) :=
  es.filterMap className?

/-- The names of the classes that a script opens are those of the nodes that open them. -/
theorem classNames_script {d : Dialect} {s : Settings} (start : Occurrence) :
    classNames (script d s [.visit start]) =
      (opened .classBody (script d s [.visit start])).map (·.staticName d) := by
  have hrule : ∀ o rule form, openScope o rule form ∈ script d s [.visit start] →
      d.ruleFor o.place.node = some rule := by
    intro o rule form hmem
    -- A scope is opened by an errand that comes out of the visit of its node.
    obtain ⟨first, hfirst, hchain⟩ := mem_script_iff.mp hmem
    rcases hchain.cases_tail with heq | ⟨last, -, hstep⟩
    · cases List.mem_singleton.mp hfirst
      cases heq
    · obtain ⟨v, ignored, rfl, -, ⟨c, number, -, hvisit⟩ | ⟨rule', form', hrule, -, h | h⟩⟩ :=
        mem_next_iff.mp hstep
      · cases hvisit
      · cases h
        exact hrule
      · cases h
  unfold classNames opened
  rw [List.map_filterMap]
  refine List.filterMap_congr fun e he => ?_
  cases e with
  | visit o => rfl
  | closeScope o form => rfl
  | openScope o rule form =>
    cases form with
    | function => rfl
    | classBody =>
      have hname : rule.naming.bind (·.name? o.place) = o.staticName d := by
        rw [Occurrence.staticName, hrule o rule .classBody he, Option.bind_some]
      simp [className?, opened?, hname]

end Errand

namespace Dialect

variable {d : Dialect} {s : Settings} {root : Document} {w : Walk}

/-- Each errand leaves the classes with the names of the nodes that opened them. -/
theorem classNames_of_perform {before after : Walk} {e : Errand} {log : List Errand}
    (h : before.perform d s e.task = .ok after)
    (hbefore : before.tree.classes.map (·.name) = Errand.classNames log) :
    after.tree.classes.map (·.name) = Errand.classNames (log ++ [e]) := by
  rw [Errand.classNames, List.filterMap_append, ← Errand.classNames, ← hbefore]
  cases e with
  | visit o =>
    rw [Walk.tree_of_visit h, ScopeTree.classes_contribute]
    refine (ScopeTree.map_name_modifyClass before.tree ?_).trans (List.append_nil _).symm
    exact fun _ => rfl
  | openScope o rule form =>
    obtain ⟨lines, -, h⟩ := exists_of_bind_eq_ok h
    cases form with
    | function =>
      -- The class that is open takes note of its method, and keeps its name.
      cases h
      rw [ScopeTree.classes_push]
      refine (ScopeTree.map_name_modifyClass before.tree ?_).trans (List.append_nil _).symm
      exact fun _ => rfl
    | classBody =>
      cases h
      exact List.map_append
  | closeScope o form =>
    have htree := Walk.tree_of_closeScope h
    cases form with
    | function =>
      rw [ScopeTree.pop_eq_ok htree]
      exact (List.append_nil _).symm
    | classBody =>
      rw [ScopeTree.closeClass_eq_ok htree]
      exact (List.append_nil _).symm

/-- The classes of a traversal have the names of the nodes that opened them. -/
theorem classNames_of_walk (done : d.walk s root = .ok w) :
    w.tree.classes.map (·.name) =
      ((d.journal s root).opened .classBody).map (·.staticName d) := by
  rw [Journal.opened, (performAll_of_walk done).1, ← Errand.classNames_script,
    ← (performAll_of_walk done).1]
  exact invariant_of_walk (P := fun log w => w.tree.classes.map (·.name) = Errand.classNames log)
    done (fun _ => rfl) fun _ _ _ _ turn h => classNames_of_perform turn.performed h

/-- Functions that got their names in order are numbered from one on, where their nodes have
none. -/
theorem numbered_of_names {os : List Occurrence} {functions : List (Scope Int String)}
    (hnames : functions.map Scope.name =
      (ScopeTree.namesFrom 0 (os.map (·.staticName d))).map some) :
    ((os.zip functions).filter fun pair => (pair.1.staticName d).isNone).map
        (fun pair => pair.2.name) =
      (List.range (os.countP fun o => (o.staticName d).isNone)).map fun i =>
        some (.string (ScopeTree.anonymousName (i + 1))) := by
  have hcount : (os.map (·.staticName d)).countP Option.isNone =
      os.countP fun o => (o.staticName d).isNone := by
    rw [List.countP_map]
    rfl
  -- The names are moved through `zip` to where `filter_namesFrom` speaks of them.
  calc
    ((os.zip functions).filter fun pair => (pair.1.staticName d).isNone).map
        (fun pair => pair.2.name)
      = (((os.zip functions).map (Prod.map (·.staticName d) Scope.name)).filter
          fun pair => pair.1.isNone).map Prod.snd := by
        rw [List.filter_map, List.map_map]
        rfl
    _ = (((os.map (·.staticName d)).zip ((ScopeTree.namesFrom 0
          (os.map (·.staticName d))).map some)).filter fun pair => pair.1.isNone).map
            Prod.snd := by
        rw [← hnames, List.zip_map]
    _ = ((((os.map (·.staticName d)).zip (ScopeTree.namesFrom 0
          (os.map (·.staticName d)))).filter fun pair => pair.1.isNone).map Prod.snd).map
            some := by
        rw [List.zip_map_right, List.filter_map, List.map_map, List.map_map]
        rfl
    _ = _ := by
        rw [ScopeTree.filter_namesFrom, List.map_map, hcount]
        simp [Function.comp_def]

/-- The functions and classes of a traversal are named after the nodes that opened them. -/
theorem namedAfter_of_walk (done : d.walk s root = .ok w) :
    w.tree.NamedAfter d ((d.journal s root).opened .function)
      ((d.journal s root).opened .classBody) := by
  obtain ⟨hnames, hanonymous⟩ := names_of_walk done
  have hnumbered := numbered_of_names hnames
  refine ⟨?_, hnumbered, ?_, ?_, classNames_of_walk done⟩
  · intro k o name hk hname
    have hgiven : (((d.journal s root).opened .function).map (·.staticName d))[k]? =
        some (some name) := by
      rw [List.getElem?_map, hk, Option.map_some, hname]
    have hfound : (w.tree.functions.map Scope.name)[k]? = some (some name) := by
      rw [hnames, List.getElem?_map, ScopeTree.getElem?_namesFrom hgiven, Option.map_some]
    rw [List.getElem?_map] at hfound
    exact Option.map_eq_some_iff.mp hfound
  · rw [hnumbered]
    refine List.Nodup.map ?_ List.nodup_range
    intro i j h
    have := ScopeTree.anonymousName_injective (Document.string.inj (Option.some.inj h))
    omega
  · rw [hanonymous, List.countP_map]
    rfl

/-! ### Discovery -/

/-- Two scopes are opened one after the other if and only if their places say so. -/
theorem pair_sublist_openings_iff
    (hscript : (d.journal s root).errands = Errand.script d s [.visit (d.top root)])
    (hnodup : (d.journal s root).openings.Nodup) {u v : Occurrence}
    (hu : u ∈ (d.journal s root).openings) (hv : v ∈ (d.journal s root).openings) :
    [u, v].Sublist (d.journal s root).openings ↔ d.OpensBefore s u v := by
  have hbefore : ∀ {x y : Occurrence}, x ∈ (d.journal s root).openings →
      y ∈ (d.journal s root).openings → d.OpensBefore s x y →
        [x, y].Sublist (d.journal s root).openings := by
    intro x y hx hy h
    rw [Journal.openings, hscript] at hx hy ⊢
    exact pair_sublist_openings_of_opensBefore h hx hy
  refine ⟨fun h => ?_, hbefore hu hv⟩
  have hreaches : ∀ {x : Occurrence}, x ∈ (d.journal s root).openings →
      d.Reaches s (d.top root) x := by
    intro x hx
    rw [Journal.openings, hscript] at hx
    exact reaches_of_mem_openings hx
  -- The places put any two scopes in an order, and the other order cannot be theirs.
  rcases opensBefore_or (hreaches hu) (hreaches hv) with rfl | huv | hvu
  · exact absurd h (not_pair_sublist_swap hnodup h)
  · exact huv
  · exact absurd (hbefore hv hu hvu) (not_pair_sublist_swap hnodup h)

/-- Functions are listed in the order of their openings. -/
theorem map_scopeOf_eq (done : d.walk s root = .ok w) :
    ((d.journal s root).opened .function).map ((d.journal s root).scopeOf .function) =
      w.tree.functions.map (fun f => some f.index) := by
  have hlength := (tracks_of_walk done).length_functions
  refine List.ext_getElem? fun k => ?_
  rw [List.getElem?_map, List.getElem?_map]
  cases hk : ((d.journal s root).opened .function)[k]? with
  | none =>
    rw [List.getElem?_eq_none (by rw [hlength]; exact List.getElem?_eq_none_iff.mp hk)]
    rfl
  | some o =>
    obtain ⟨f, hf, hbelongs⟩ := (attributesFunctions_of_walk done).functions k o hk
    rw [hf, Option.map_some, Option.map_some, hbelongs.index,
      scopeOf_of_mem_opened (List.mem_of_getElem? hk)]

end Dialect

namespace Sample

/-- A module with a function whose parameter has a function as its default value. The body holds a
class, whose method holds a third function. All but the method are without a name. -/
def withDefault : Document :=
  node "Program"
    [("body", .list [function
      [node "AssignmentPattern" [("left", node "ArrayPattern" []), ("right", function [] [])]]
      [classWith "Outer" "run" (function [] [function [] []])]]),
     ("loc", location)]

end Sample

end CodeMetrics
