import CodeMetrics.Proofs.Traversal.Recursion
import Mathlib.Data.List.Basic
import Mathlib.Logic.Relation

/-!
# `CodeMetrics.Proofs.Traversal.Occurrence`: the nodes of a tree, told apart by their places

Two equal nodes can stand at different places of a tree. An `Occurrence` is a node with the
whole way down to it, and its `path` (the numbers of the children along the way) tells it
apart from every other one. `Dialect.Reaches` says which occurrences there are below a
given one: those found by going to children that are not passed over.

An `Errand` is a `Task` that knows the occurrence it is for. `Errand.script` expands pending
errands into all the errands that come out of them, in the order in which a run meets them.
It does not look at the walk, so it is a property of the tree alone:

* `mem_script_iff`: the script holds what comes out of the pending errands and nothing else.
* `visit_mem_script_iff`: the occurrences it visits are those that can be reached.
* `pairwise_label_script`: no errand is in it twice.
-/

set_option autoImplicit false

namespace CodeMetrics

/-! ### Occurrences -/

/-- One step down a tree: the place it starts from, and the number and the key of the child
that it leads to. -/
structure Descent where
  origin : Placed
  number : Nat
  key : String

/-- A node at its place, with the steps that lead down to it. The last step comes first. -/
structure Occurrence where
  place : Placed
  trail : List Descent := []

namespace Occurrence

/-- The numbers of the children on the way down, the last one first. -/
def path (o : Occurrence) : List Nat :=
  o.trail.map Descent.number

/-- The child with the given number. -/
def child (o : Occurrence) (c : Child) (number : Nat) : Occurrence :=
  { place := c.placed o.place.node
    trail := { origin := o.place, number, key := c.key } :: o.trail }

/-- The path of a child starts with its number. -/
@[simp] theorem path_child (o : Occurrence) (c : Child) (number : Nat) :
    (o.child c number).path = number :: o.path := rfl

/-- Those of the given children that a test selects, with their numbers among all of them. -/
def childrenWhere (o : Occurrence) (cs : List Child) (keep : Child → Bool) : List Occurrence :=
  (cs.zipIdx.filter fun entry => keep entry.1).map fun entry => o.child entry.1 entry.2

/-- A selected child is one of the children, under its number. -/
theorem mem_childrenWhere {o v : Occurrence} {cs : List Child} {keep : Child → Bool} :
    v ∈ o.childrenWhere cs keep ↔
      ∃ c number, cs[number]? = some c ∧ keep c = true ∧ v = o.child c number := by
  simp only [childrenWhere, List.mem_map, List.mem_filter, Prod.exists,
    List.mk_mem_zipIdx_iff_getElem?]
  constructor
  · rintro ⟨c, number, ⟨hc, hkeep⟩, rfl⟩
    exact ⟨c, number, hc, hkeep, rfl⟩
  · rintro ⟨c, number, hc, hkeep, rfl⟩
    exact ⟨c, number, ⟨hc, hkeep⟩, rfl⟩

/-- Selecting children and giving up their numbers is selecting children. -/
theorem map_place_childrenWhere (o : Occurrence) (cs : List Child) (keep : Child → Bool) :
    (o.childrenWhere cs keep).map place =
      (cs.filter keep).map fun c => c.placed o.place.node := by
  have hfst : (cs.zipIdx.filter fun entry => keep entry.1).map Prod.fst = cs.filter keep := by
    rw [← Function.comp_def, ← List.filter_map, List.zipIdx_map_fst]
  rw [← hfst, childrenWhere, List.map_map, List.map_map]
  rfl

end Occurrence

/-- The keys that are passed over at a place. A node of an unknown kind passes over nothing.
There is no answer where the rule of the node cannot be read. -/
def Dialect.ignored? (d : Dialect) (s : Settings) (p : Placed) : Option (List String) :=
  match d.ruleFor p.node with
  | none => some []
  | some rule => (rule.read s p).toOption.map Contribution.ignored

/-- The occurrences that can be reached from `start` by going to children that are not
passed over. -/
inductive Dialect.Reaches (d : Dialect) (s : Settings) (start : Occurrence) :
    Occurrence → Prop
  | start : Reaches d s start start
  | child {o : Occurrence} {ignored : List String} {c : Child} {number : Nat} :
    Reaches d s start o → d.ignored? s o.place = some ignored →
      (o.place.node.children ignored)[number]? = some c →
      Reaches d s start (o.child c number)

/-! ### Errands -/

/-- A task and the occurrence it is for. -/
inductive Errand where
  | visit (o : Occurrence)
  | openScope (o : Occurrence) (rule : Rule) (form : ScopeForm)
  | closeScope (o : Occurrence) (form : ScopeForm)

namespace Errand

/-- The task of an errand. -/
def task : Errand → Task
  | visit o => .visit o.place
  | openScope o rule form => .openScope o.place rule form
  | closeScope _ form => .closeScope form

/-- The occurrence that is visited, if one is. -/
def visited? : Errand → Option Occurrence
  | visit o => some o
  | _ => none

/-- The occurrence whose scope of the given form is opened, if one is. -/
def opened? (form : ScopeForm) : Errand → Option Occurrence
  | openScope o _ other => if other = form then some o else none
  | _ => none

/-- The occurrences that some errands visit, in order. -/
def visited (es : List Errand) : List Occurrence :=
  es.filterMap visited?

/-- The occurrences whose scopes of the given form some errands open, in order. -/
def opened (form : ScopeForm) (es : List Errand) : List Occurrence :=
  es.filterMap (opened? form)

/-- Visits are the only errands that visit something. -/
theorem visited?_eq_some {e : Errand} {o : Occurrence} :
    e.visited? = some o ↔ e = .visit o := by
  cases e <;> simp [visited?]

/-- Openings are the only errands that open something. -/
theorem opened?_eq_some {form : ScopeForm} {e : Errand} {o : Occurrence} :
    e.opened? form = some o ↔ ∃ rule, e = .openScope o rule form := by
  cases e with
  | visit v => simp [opened?]
  | closeScope v other => simp [opened?]
  | openScope v rule other =>
    by_cases h : other = form
    · simp [opened?, h]
    · simp [opened?, h]

/-- An occurrence is visited if its visit is among the errands. -/
theorem mem_visited {es : List Errand} {o : Occurrence} : o ∈ visited es ↔ .visit o ∈ es := by
  simp only [visited, List.mem_filterMap, visited?_eq_some, exists_eq_right]

/-- An occurrence is opened if an opening of its scope is among the errands. -/
theorem mem_opened {form : ScopeForm} {es : List Errand} {o : Occurrence} :
    o ∈ opened form es ↔ ∃ rule, .openScope o rule form ∈ es := by
  simp only [opened, List.mem_filterMap, opened?_eq_some]
  constructor
  · rintro ⟨e, he, rule, rfl⟩
    exact ⟨rule, he⟩
  · rintro ⟨rule, he⟩
    exact ⟨_, he, rule, rfl⟩

/-- What is to be done below a node, as `Task.below`. -/
def below (rule : Rule) (o : Occurrence) (ignored : List String) : List Errand :=
  let children := o.place.node.children ignored
  match rule.opens with
  | none => (o.childrenWhere children fun _ => true).map visit
  | some form =>
    let outside := o.childrenWhere children fun c => rule.scopeKeys.contains c.key
    let inside := o.childrenWhere children fun c => !rule.scopeKeys.contains c.key
    outside.map visit ++ [.openScope o rule form] ++ inside.map visit ++ [.closeScope o form]

/-- The errands that come out of one, as `Task.next`. A node of an unknown kind is like one
whose rule opens nothing. -/
def next (d : Dialect) (s : Settings) : Errand → List Errand
  | visit o =>
    match d.ignored? s o.place with
    | some ignored => below ((d.ruleFor o.place.node).getD {}) o ignored
    | none => []
  | openScope _ _ _ | closeScope _ _ => []

/-- The visits of selected children are the visits that a run makes of them. -/
theorem map_task_visits (o : Occurrence) (cs : List Child) (keep : Child → Bool) :
    ((o.childrenWhere cs keep).map visit).map task =
      Task.visits o.place.node (cs.filter keep) := by
  rw [List.map_map]
  show (o.childrenWhere cs keep).map (Task.visit ∘ Occurrence.place) = _
  rw [← List.map_map, Occurrence.map_place_childrenWhere, List.map_map]
  rfl

/-- What is to be done below a node is what a run does there. -/
theorem map_task_below (rule : Rule) (o : Occurrence) (ignored : List String) :
    (below rule o ignored).map task = Task.below rule o.place ignored := by
  unfold below Task.below
  cases rule.opens with
  | none => simp only [map_task_visits, List.filter_true]
  | some form =>
    simp only [List.map_append, map_task_visits]
    rfl

/-- The errands that come out of one are the tasks that come out of its task. -/
theorem map_task_next (d : Dialect) (s : Settings) (e : Errand) :
    (e.next d s).map task = e.task.next d s := by
  cases e with
  | visit o =>
    simp only [next, task, Task.next, Dialect.ignored?]
    cases hrule : d.ruleFor o.place.node with
    | none => exact map_task_below {} o []
    | some rule =>
      cases hread : rule.read s o.place with
      | error fault => simp only [hread, Except.toOption]; rfl
      | ok c =>
        simp only [hread, Except.toOption]
        exact map_task_below rule o c.ignored
  | openScope o rule form => rfl
  | closeScope o form => rfl

/-- How much work some errands are. -/
def weight (es : List Errand) : Nat :=
  Task.totalWeight (es.map task)

/-- Replacing an errand by what comes out of it makes less work. -/
theorem weight_next_append_lt (d : Dialect) (s : Settings) (e : Errand) (rest : List Errand) :
    weight (e.next d s ++ rest) < weight (e :: rest) := by
  have hless := Task.totalWeight_next_lt d s e.task
  simp only [weight, List.map_append, List.map_cons, map_task_next, Task.totalWeight_append,
    Task.totalWeight]
  omega

/-- All the errands that come out of some pending ones, in the order they are met. -/
def script (d : Dialect) (s : Settings) : List Errand → List Errand
  | [] => []
  | e :: rest => e :: script d s (e.next d s ++ rest)
termination_by es => weight es
decreasing_by exact weight_next_append_lt d s e rest

/-- The script is no longer than the pending work allows. -/
theorem length_script_le (d : Dialect) (s : Settings) (es : List Errand) :
    (script d s es).length ≤ weight es := by
  fun_induction script d s es with
  | case1 => exact Nat.zero_le _
  | case2 e rest ih =>
    have hless := weight_next_append_lt d s e rest
    rw [List.length_cons]
    omega

/-! ### What is in a script -/

variable {d : Dialect} {s : Settings}

/-- A script holds the errands that come out of the pending ones in any number of steps,
and nothing else. -/
theorem mem_script_iff {es : List Errand} {a : Errand} :
    a ∈ script d s es ↔
      ∃ e ∈ es, Relation.ReflTransGen (fun x y => y ∈ x.next d s) e a := by
  fun_induction script d s es with
  | case1 => simp
  | case2 e rest ih =>
    -- By `ih`, the rest of the script is what comes out of `e.next ++ rest`.
    rw [List.mem_cons, ih]
    constructor
    · rintro (rfl | ⟨b, hb, hba⟩)
      · exact ⟨a, List.mem_cons_self, .refl⟩
      · rcases List.mem_append.mp hb with hnext | hrest
        · exact ⟨e, List.mem_cons_self, .head hnext hba⟩
        · exact ⟨b, List.mem_cons_of_mem _ hrest, hba⟩
    · rintro ⟨b, hb, hba⟩
      rcases List.mem_cons.mp hb with rfl | hrest
      · rcases hba.cases_head with rfl | ⟨c, hnext, hca⟩
        · exact Or.inl rfl
        · exact Or.inr ⟨c, List.mem_append_left _ hnext, hca⟩
      · exact Or.inr ⟨b, List.mem_append_right _ hrest, hba⟩

/-- Below a node all children are visited, and the scope of the node is opened and closed if
it has one. -/
theorem mem_below_iff {rule : Rule} {o : Occurrence} {ignored : List String} {e : Errand} :
    e ∈ below rule o ignored ↔
      (∃ c number, (o.place.node.children ignored)[number]? = some c ∧
        e = .visit (o.child c number)) ∨
      ∃ form, rule.opens = some form ∧
        (e = .openScope o rule form ∨ e = .closeScope o form) := by
  unfold below
  cases rule.opens with
  | none =>
    simp only [List.mem_map, Occurrence.mem_childrenWhere]
    constructor
    · rintro ⟨v, ⟨c, number, hc, -, rfl⟩, rfl⟩
      exact Or.inl ⟨c, number, hc, rfl⟩
    · rintro (⟨c, number, hc, rfl⟩ | ⟨form, hform, -⟩)
      · exact ⟨_, ⟨c, number, hc, trivial, rfl⟩, rfl⟩
      · cases hform
  | some form =>
    simp only [List.mem_append, List.mem_map, List.mem_singleton, Occurrence.mem_childrenWhere]
    constructor
    · rintro (((⟨v, ⟨c, number, hc, -, rfl⟩, rfl⟩ | rfl) | ⟨v, ⟨c, number, hc, -, rfl⟩, rfl⟩) | rfl)
      · exact Or.inl ⟨c, number, hc, rfl⟩
      · exact Or.inr ⟨form, rfl, Or.inl rfl⟩
      · exact Or.inl ⟨c, number, hc, rfl⟩
      · exact Or.inr ⟨form, rfl, Or.inr rfl⟩
    · rintro (⟨c, number, hc, rfl⟩ | ⟨form', hform, rfl | rfl⟩)
      -- A child is visited before the scope is opened or within it, according to its key.
      · cases hkey : rule.scopeKeys.contains c.key with
        | true => exact Or.inl (Or.inl (Or.inl ⟨_, ⟨c, number, hc, hkey, rfl⟩, rfl⟩))
        | false => exact Or.inl (Or.inr ⟨_, ⟨c, number, hc, by rw [hkey]; rfl, rfl⟩, rfl⟩)
      · cases hform
        exact Or.inl (Or.inl (Or.inr rfl))
      · cases hform
        exact Or.inr rfl

/-- Out of a visit come the visits of the children, and the scope of the node is opened and
closed if its rule opens one. Nothing comes out of other errands. -/
theorem mem_next_iff {e a : Errand} :
    a ∈ e.next d s ↔
      ∃ o ignored, e = .visit o ∧ d.ignored? s o.place = some ignored ∧
        ((∃ c number, (o.place.node.children ignored)[number]? = some c ∧
          a = .visit (o.child c number)) ∨
        ∃ rule form, d.ruleFor o.place.node = some rule ∧ rule.opens = some form ∧
          (a = .openScope o rule form ∨ a = .closeScope o form)) := by
  cases e with
  | openScope o rule form => simp [next]
  | closeScope o form => simp [next]
  | visit o =>
    simp only [next]
    cases hignored : d.ignored? s o.place with
    | none => simp [hignored]
    | some ignored =>
      simp only [mem_below_iff]
      constructor
      · rintro (hchild | ⟨form, hform, ha⟩)
        · exact ⟨o, ignored, rfl, hignored, Or.inl hchild⟩
        · refine ⟨o, ignored, rfl, hignored, Or.inr ?_⟩
          cases hrule : d.ruleFor o.place.node with
          | none => rw [hrule] at hform; cases hform
          | some rule =>
            rw [hrule] at hform ha
            exact ⟨rule, form, rfl, hform, ha⟩
      · rintro ⟨o', ignored', heq, hignored', hchild | ⟨rule, form, hrule, hform, ha⟩⟩
        · cases heq
          cases hignored.symm.trans hignored'
          exact Or.inl hchild
        · cases heq
          rw [hrule]
          exact Or.inr ⟨form, hform, ha⟩

/-- The script of a visit visits what can be reached from there. -/
theorem visit_mem_script_iff {o v : Occurrence} :
    .visit v ∈ script d s [.visit o] ↔ d.Reaches s o v := by
  rw [mem_script_iff]
  constructor
  · rintro ⟨e, he, hv⟩
    cases List.mem_singleton.mp he
    -- Visits come only out of visits, so the induction never leaves them.
    generalize ha : Errand.visit v = a at hv
    induction hv generalizing v with
    | refl => cases ha; exact .start
    | tail _ hstep ih =>
      subst ha
      obtain ⟨u, ignored, rfl, hignored, hchild | ⟨rule, form, -, -, h | h⟩⟩ :=
        mem_next_iff.mp hstep
      · obtain ⟨c, number, hc, hv⟩ := hchild
        cases hv
        exact .child (ih rfl) hignored hc
      · cases h
      · cases h
  · intro hv
    refine ⟨_, List.mem_singleton_self _, ?_⟩
    induction hv with
    | start => exact .refl
    | child _ hignored hc ih =>
      exact ih.tail (mem_next_iff.mpr ⟨_, _, rfl, hignored, Or.inl ⟨_, _, hc, rfl⟩⟩)

/-! ### No errand is in a script twice

An errand is known by its stage and the path of its occurrence. A pending visit stands for
all labels whose path goes on from its own. Pending errands that stand for different labels
keep doing so when one of them is replaced by what comes out of it.
-/

/-- The stages at which a node is met. -/
inductive Stage where
  | visiting
  | opening
  | closing
  deriving DecidableEq

/-- What an errand is known by. -/
def label : Errand → Stage × List Nat
  | visit o => (.visiting, o.path)
  | openScope o _ _ => (.opening, o.path)
  | closeScope o _ => (.closing, o.path)

/-- The labels of all that may come out of an errand, its own one included. -/
def Covers : Errand → Stage × List Nat → Prop
  | visit o, l => o.path <:+ l.2
  | e, l => l = e.label

/-- No label can come out of both errands. -/
def Apart (a b : Errand) : Prop :=
  ∀ l, a.Covers l → ¬ b.Covers l

/-- An errand covers its own label. -/
theorem covers_label (e : Errand) : e.Covers e.label := by
  cases e with
  | visit o => exact List.suffix_refl _
  | openScope o rule form => rfl
  | closeScope o form => rfl

/-- The way to a child is not part of the way to its parent. -/
theorem not_child_path_suffix (o : Occurrence) (c : Child) (number : Nat) :
    ¬ (o.child c number).path <:+ o.path := by
  intro h
  have := h.length_le
  rw [Occurrence.path_child, List.length_cons] at this
  omega

/-- What comes out of an errand covers nothing new. -/
theorem covers_of_mem_next {e a : Errand} (h : a ∈ e.next d s) {l : Stage × List Nat}
    (hl : a.Covers l) : e.Covers l := by
  obtain ⟨o, ignored, rfl, -, ⟨c, number, -, rfl⟩ | ⟨rule, form, -, -, rfl | rfl⟩⟩ :=
    mem_next_iff.mp h
  · exact (List.suffix_cons number o.path).trans hl
  · cases hl
    exact List.suffix_refl _
  · cases hl
    exact List.suffix_refl _

/-- What comes out of an errand does not cover the errand itself. -/
theorem not_covers_label_of_mem_next {e a : Errand} (h : a ∈ e.next d s) :
    ¬ a.Covers e.label := by
  obtain ⟨o, ignored, rfl, -, ⟨c, number, -, rfl⟩ | ⟨rule, form, -, -, rfl | rfl⟩⟩ :=
    mem_next_iff.mp h
  · exact not_child_path_suffix o c number
  · intro hl
    cases hl
  · intro hl
    cases hl

/-- The visits of two children with different numbers are apart. -/
theorem apart_visit_child (o : Occurrence) (a b : Child) {m n : Nat} (h : m ≠ n) :
    Apart (.visit (o.child a m)) (.visit (o.child b n)) := by
  intro l ha hb
  have hsuffix := List.suffix_of_suffix_length_le ha hb (Nat.le_of_eq rfl)
  exact h (List.cons.inj (hsuffix.eq_of_length rfl)).1

/-- The visits of selected children are apart from each other. -/
theorem pairwise_apart_visits (o : Occurrence) (cs : List Child) (keep : Child → Bool) :
    ((o.childrenWhere cs keep).map visit).Pairwise Apart := by
  have hnumbers : cs.zipIdx.Pairwise fun a b => a.2 ≠ b.2 := by
    rw [← List.pairwise_map (f := Prod.snd) (R := (· ≠ ·)), List.zipIdx_map_snd]
    exact List.nodup_range'
  rw [Occurrence.childrenWhere, List.map_map, List.pairwise_map]
  exact (hnumbers.filter _).imp fun hne => apart_visit_child o _ _ hne

/-- The visit of a child is apart from the opening and the closing of the scope around it. -/
theorem apart_visit_scope {o : Occurrence} (rule : Rule) {form : ScopeForm} (c : Child)
    (number : Nat) {e : Errand} (h : e = .openScope o rule form ∨ e = .closeScope o form) :
    Apart (.visit (o.child c number)) e := by
  intro l hchild he
  rcases h with rfl | rfl
  · cases he
    exact not_child_path_suffix o c number hchild
  · cases he
    exact not_child_path_suffix o c number hchild

/-- What is to be done below a node are errands apart from each other. -/
theorem pairwise_apart_below (rule : Rule) (o : Occurrence) (ignored : List String) :
    (below rule o ignored).Pairwise Apart := by
  unfold below
  cases rule.opens with
  | none => exact pairwise_apart_visits o _ _
  | some form =>
    simp only [List.pairwise_append, List.pairwise_singleton, List.mem_append, List.mem_map,
      List.mem_singleton, Occurrence.mem_childrenWhere]
    refine ⟨⟨⟨pairwise_apart_visits o _ _, trivial, ?_⟩, pairwise_apart_visits o _ _, ?_⟩,
      trivial, ?_⟩
    · -- A child outside and the opening of the scope.
      rintro _ ⟨_, ⟨c, number, -, -, rfl⟩, rfl⟩ _ rfl
      exact apart_visit_scope rule c number (Or.inl rfl)
    · rintro _ (⟨_, ⟨a, m, ha, hout, rfl⟩, rfl⟩ | rfl) _ ⟨_, ⟨b, n, hb, hin, rfl⟩, rfl⟩
      · -- Two children, of which one is outside and one inside, have different numbers.
        refine apart_visit_child o a b fun hmn => ?_
        subst hmn
        cases ha.symm.trans hb
        rw [hout] at hin
        cases hin
      · exact fun l hopen hchild => apart_visit_scope rule b n (Or.inl rfl) l hchild hopen
    · rintro _ ((⟨_, ⟨c, number, -, -, rfl⟩, rfl⟩ | rfl) | ⟨_, ⟨c, number, -, -, rfl⟩, rfl⟩) _ rfl
      · exact apart_visit_scope rule c number (Or.inr rfl)
      · intro l hopen hclose
        cases hopen.symm.trans hclose
      · exact apart_visit_scope rule c number (Or.inr rfl)

/-- The errands that come out of one are apart from each other. -/
theorem pairwise_apart_next (e : Errand) : (e.next d s).Pairwise Apart := by
  cases e with
  | openScope o rule form => exact .nil
  | closeScope o form => exact .nil
  | visit o =>
    simp only [next]
    split
    · exact pairwise_apart_below _ o _
    · exact .nil

/-- Every label in a script is covered by a pending errand. -/
theorem exists_covers_of_mem_script {es : List Errand} {a : Errand} (h : a ∈ script d s es) :
    ∃ e ∈ es, e.Covers a.label := by
  obtain ⟨e, he, hea⟩ := mem_script_iff.mp h
  suffices hcovers : ∀ l, a.Covers l → e.Covers l from ⟨e, he, hcovers _ (covers_label a)⟩
  clear h
  induction hea with
  | refl => exact fun _ hl => hl
  | tail _ hstep ih => exact fun l hl => ih l (covers_of_mem_next hstep hl)

/-- If the pending errands are apart from each other, their script holds each label once. -/
theorem pairwise_label_script {es : List Errand} (h : es.Pairwise Apart) :
    (script d s es).Pairwise fun a b => a.label ≠ b.label := by
  fun_induction script d s es with
  | case1 => exact .nil
  | case2 e rest ih =>
    obtain ⟨hfirst, hrest⟩ := List.pairwise_cons.mp h
    -- What replaces `e` covers no more than `e` did, so it stays apart from the rest.
    have hpending : (e.next d s ++ rest).Pairwise Apart := by
      refine List.pairwise_append.mpr ⟨pairwise_apart_next e, hrest, ?_⟩
      intro a ha b hb l hal
      exact hfirst b hb l (covers_of_mem_next ha hal)
    refine List.pairwise_cons.mpr ⟨fun b hb heq => ?_, ih hpending⟩
    obtain ⟨a, ha, hab⟩ := exists_covers_of_mem_script hb
    rw [← heq] at hab
    rcases List.mem_append.mp ha with hnext | hrest
    · exact not_covers_label_of_mem_next hnext hab
    · exact hfirst a hrest e.label (covers_label e) hab

/-- Where no label occurs twice, no occurrence is visited twice. -/
theorem nodup_path_visited {es : List Errand}
    (h : es.Pairwise fun a b => a.label ≠ b.label) :
    ((visited es).map Occurrence.path).Nodup := by
  rw [List.Nodup, List.pairwise_map, visited, List.pairwise_filterMap]
  refine h.imp fun hne u hu v hv heq => hne ?_
  cases visited?_eq_some.mp hu
  cases visited?_eq_some.mp hv
  rw [label, label, heq]

/-- Where no label occurs twice, no occurrence has its scope opened twice. -/
theorem nodup_path_opened (form : ScopeForm) {es : List Errand}
    (h : es.Pairwise fun a b => a.label ≠ b.label) :
    ((opened form es).map Occurrence.path).Nodup := by
  rw [List.Nodup, List.pairwise_map, opened, List.pairwise_filterMap]
  refine h.imp fun hne u hu v hv heq => hne ?_
  obtain ⟨_, rfl⟩ := opened?_eq_some.mp hu
  obtain ⟨_, rfl⟩ := opened?_eq_some.mp hv
  rw [label, label, heq]

end Errand

end CodeMetrics
