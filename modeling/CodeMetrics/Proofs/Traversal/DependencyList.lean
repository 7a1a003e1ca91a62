import CodeMetrics.Proofs.Report.Assembly
import CodeMetrics.Proofs.Traversal.DependencyOption
import Mathlib.Data.List.ReduceOption

/-!
# `CodeMetrics.Proofs.Traversal.DependencyList`: the dependencies of a whole module

A dependency is found at a node, its path is resolved when the node is visited, and the list is
sorted when the traversal is over. This module follows the list through these three stages.

* `Dependency.foundAt` says what is found at a node, from its kind alone. The rules of both dialects
  find the same (`Dialect.dependencyAt_eq`).
* What a run records is what was found at the nodes it visited, one after the other
  (`Walk.found_of_performAll`). Every node that can be reached is visited once, whatever scopes or
  unknown nodes it stands in.
* Sorting keeps the order of those on one line (`Dependency.isLineOrderOf_inLineOrder`).
* A traversal with a resolver is one without it, with the paths replaced at the end
  (`Dialect.walk_eq_resolve`). A resolver leaves lines alone, so that it does not matter whether
  paths are replaced before or after sorting.
-/

set_option autoImplicit false

namespace CodeMetrics

/-! ### The order of lines -/

namespace Dependency

/-- The first list is the second one in the order of the lines. Dependencies on one line keep their
order. -/
structure IsLineOrderOf (sorted found : List (Dependency Int)) : Prop where
  perm : sorted.Perm found
  ordered : sorted.Pairwise fun a b => a.line ≤ b.line
  stable : ∀ line : Int, sorted.filter (·.line = line) = found.filter (·.line = line)

theorem pairwise_inLineOrder (ds : List (Dependency Int)) :
    (inLineOrder ds).Pairwise fun a b => a.line ≤ b.line := by
  have hsorted := List.pairwise_mergeSort line_le_trans line_le_total ds
  exact hsorted.imp fun h => of_decide_eq_true h

theorem isLineOrderOf_inLineOrder (ds : List (Dependency Int)) :
    IsLineOrderOf (inLineOrder ds) ds where
  perm := List.mergeSort_perm ds _
  ordered := pairwise_inLineOrder ds
  stable line := by
    rw [filter_inLineOrder]
    -- Those on one line are in order as they are.
    refine List.mergeSort_of_pairwise (List.pairwise_of_forall_mem_list ?_)
    intro a ha b hb
    have hfirst : a.line = line := by simpa using (List.mem_filter.mp ha).2
    have hsecond : b.line = line := by simpa using (List.mem_filter.mp hb).2
    exact decide_eq_true (Int.le_of_eq (hfirst.trans hsecond.symm))

/-- A change that leaves the lines alone can be made before or after sorting. -/
theorem inLineOrder_map {f : Dependency Int → Dependency Int} (h : ∀ a, (f a).line = a.line)
    (ds : List (Dependency Int)) : inLineOrder (ds.map f) = (inLineOrder ds).map f := by
  refine (List.map_mergeSort fun a _ b _ => ?_).symm
  rw [h, h]

/-! ### Resolving paths -/

/-- The second dependency is the first one with its path resolved. The marker of a dynamic path is
kept, and so is a path for which the resolver has no text. -/
structure Resolves (resolver : Option Resolver) (found shown : Dependency Int) : Prop where
  line : shown.line = found.line
  type : shown.type = found.type
  unresolved : resolver = none → shown.path = found.path
  dynamic : found.path = .string dynamicPath → shown.path = found.path
  replaced : ∀ r text, resolver = some r → found.path ≠ .string dynamicPath →
    r.resolve found.path = .string text → shown.path = .string text
  kept : ∀ r, resolver = some r → (∀ text, r.resolve found.path ≠ .string text) →
    shown.path = found.path

theorem isDynamic_iff {path : Document} :
    path.isOneOf [dynamicPath] = true ↔ path = .string dynamicPath := by
  cases path <;> simp [Document.isOneOf]

theorem resolves_resolved (s : Settings) (found : Dependency Int) :
    Resolves s.resolver found (found.resolved s) := by
  unfold resolved
  cases hresolver : s.resolver with
  | none => exact ⟨rfl, rfl, fun _ => rfl, fun _ => rfl, nofun, nofun⟩
  | some r =>
    simp only
    -- A dynamic path is kept, another one is asked for, and it is kept too if the answer is no
    -- text.
    split
    · rename_i hdynamic
      have hpath := isDynamic_iff.mp hdynamic
      exact ⟨rfl, rfl, nofun, fun _ => rfl, fun _ _ _ hne => absurd hpath hne, fun _ _ _ => rfl⟩
    · rename_i hdynamic
      have hpath : found.path ≠ .string dynamicPath := fun h => hdynamic (isDynamic_iff.mpr h)
      split
      · rename_i text htext
        refine ⟨rfl, rfl, nofun, fun h => absurd h hpath, ?_, ?_⟩
        · rintro _ other ⟨⟩ - hother
          exact htext.symm.trans hother
        · rintro _ ⟨⟩ hnone
          exact absurd htext (hnone text)
      · rename_i hnone
        refine ⟨rfl, rfl, nofun, fun _ => rfl, ?_, fun _ _ _ => rfl⟩
        rintro _ text ⟨⟩ - htext
        exact absurd htext (hnone text)

theorem line_resolved (s : Settings) (found : Dependency Int) :
    (found.resolved s).line = found.line :=
  (resolves_resolved s found).line

/-- Nothing is replaced without a resolver. -/
theorem resolved_none (s : Settings) (found : Dependency Int) :
    found.resolved { s with resolver := none } = found := rfl

/-! ### What is found at a node -/

/-- The kinds of calls in a dialect. -/
def callKinds (dialect : String) : List String :=
  "CallExpression" :: if dialect = "babel" then ["OptionalCallExpression"] else []

/-- The kinds of imports and exports that can name a source. -/
def sourceKinds : List String :=
  ["ImportDeclaration", "ImportExpression", "ExportNamedDeclaration", "ExportAllDeclaration"]

/-- The dependency found at a node of some dialect, if there is one. -/
def foundAt (dialect : String) (s : Settings) (node : Document) :
    Except Fault (Option (Dependency Int)) :=
  if node.kindIn (callKinds dialect) then ofCall s node
  else if node.kindIn sourceKinds then esm node
  else .ok none

end Dependency

/-- Whether a rule for a kind looks for a dependency where there can be one. -/
def DependencyForm.suits (dialect kind : String) : Option DependencyForm → Bool
  | some .call => (Dependency.callKinds dialect).contains kind
  | some .source =>
    !(Dependency.callKinds dialect).contains kind && Dependency.sourceKinds.contains kind
  | none => !(Dependency.callKinds dialect).contains kind && !Dependency.sourceKinds.contains kind

/-- The rules of the dialects that are there from the start look for dependencies at calls, imports
and exports, and all of these have rules. -/
theorem Registry.suits_standard : ∀ entry ∈ standard.entries,
    (∀ row ∈ entry.2.rules, DependencyForm.suits entry.1 row.1 row.2.dependency = true) ∧
    ∀ kind ∈ Dependency.callKinds entry.1 ++ Dependency.sourceKinds,
      entry.2.defines kind = true := by
  rw [standard, Babel.dialect_eq]
  decide +kernel

namespace Dialect

variable {name : String} {d : Dialect} {s : Settings} {root : Document} {w : Walk}

/-- The dependency that the rule for a node finds. Nothing is found without a rule. -/
def dependencyAt (d : Dialect) (s : Settings) (node : Document) :
    Except Fault (Option (Dependency Int)) :=
  match d.ruleFor node with
  | none => .ok none
  | some rule => rule.dependencyAt s node

/-- The rules find what is there by the kind of the node. -/
theorem dependencyAt_eq (standard : (name, d) ∈ Registry.standard.entries) (node : Document) :
    d.dependencyAt s node = Dependency.foundAt name s node := by
  obtain ⟨hrows, hdefined⟩ := Registry.suits_standard (name, d) standard
  unfold dependencyAt Dependency.foundAt ruleFor Document.kindIn
  cases hkind : node.kind? with
  | none => rfl
  | some kind =>
    simp only [Option.bind_some]
    cases hrule : d.rule? kind with
    | none =>
      -- The dialect defines every kind that can be a dependency, so a node without a rule is of
      -- none of them.
      have hnot : ∀ other ∈ Dependency.callKinds name ++ Dependency.sourceKinds, other ≠ kind := by
        rintro other hother rfl
        have hsome := hdefined other hother
        rw [defines, hrule] at hsome
        cases hsome
      rw [List.forall_mem_append] at hnot
      have hcalls : (Dependency.callKinds name).contains kind = false := by
        simpa using fun h => hnot.1 kind h rfl
      have hsources : Dependency.sourceKinds.contains kind = false := by
        simpa using fun h => hnot.2 kind h rfl
      simp only [hcalls, hsources, Bool.false_eq_true, if_false]
    | some rule =>
      have hsuits := hrows _ (mem_of_find hrule)
      simp only [Rule.dependencyAt]
      cases hform : rule.dependency with
      | none =>
        simp only [hform, DependencyForm.suits, Bool.and_eq_true, Bool.not_eq_true'] at hsuits
        simp only [hsuits, Bool.false_eq_true, if_false]
        rfl
      | some form =>
        cases form with
        | call =>
          simp only [hform, DependencyForm.suits] at hsuits
          simp only [hsuits, if_true]
          rfl
        | source =>
          simp only [hform, DependencyForm.suits, Bool.and_eq_true, Bool.not_eq_true'] at hsuits
          simp only [hsuits, Bool.false_eq_true, if_false, if_true]
          rfl

end Dialect

/-! ### What a run records -/

namespace Walk

variable {d : Dialect} {s : Settings} {w after : Walk}

/-- A visit records what is found at the node, with its path resolved. -/
theorem found_of_visit {p : Placed} (h : w.perform d s (.visit p) = .ok after) :
    ∃ found, d.dependencyAt s p.node = .ok found ∧
      after.found = w.found ++ (found.map (·.resolved s)).toList := by
  unfold Dialect.dependencyAt
  cases hrule : d.ruleFor p.node with
  | none =>
    simp only [perform, hrule] at h
    obtain ⟨errors, unsupported, rfl⟩ := exists_of_meetUnknown h
    exact ⟨none, rfl, (List.append_nil _).symm⟩
  | some rule =>
    simp only [perform, hrule] at h
    obtain ⟨c, hc, h⟩ := exists_of_bind_eq_ok h
    cases h
    exact ⟨c.dependency, (Rule.reads_of_read (eq_ok_of_mapError hc)).dependency, rfl⟩

theorem found_of_openScope {p : Placed} {rule : Rule} {form : ScopeForm}
    (h : w.openScope p rule form = .ok after) : after.found = w.found := by
  obtain ⟨lines, -, h⟩ := exists_of_bind_eq_ok h
  cases form <;> cases h <;> rfl

theorem found_of_closeScope {form : ScopeForm} (h : w.closeScope form = .ok after) :
    after.found = w.found := by
  obtain ⟨tree, -, h⟩ := exists_of_bind_eq_ok h
  cases h
  rfl

/-- A run records what is found at the nodes that it visits, in their order. -/
theorem found_of_performAll {es : List Errand} (h : w.performAll d s es = .ok after) :
    ∃ found, (Errand.visited es).mapM (fun o => d.dependencyAt s o.place.node) = .ok found ∧
      after.found = w.found ++ found.reduceOption.map (·.resolved s) := by
  induction es generalizing w with
  | nil =>
    cases h
    exact ⟨[], rfl, (List.append_nil _).symm⟩
  | cons e es ih =>
    rw [performAll_cons] at h
    obtain ⟨next, hnext, h⟩ := exists_of_bind_eq_ok h
    obtain ⟨found, hfound, hafter⟩ := ih h
    cases e with
    | visit o =>
      obtain ⟨one, hone, hrecorded⟩ := found_of_visit hnext
      refine ⟨one :: found, ?_, ?_⟩
      · show List.mapM _ (o :: Errand.visited es) = _
        rw [List.mapM_cons, hone, hfound]
        rfl
      · rw [hafter, hrecorded, List.append_assoc]
        cases one <;> simp
    | openScope o rule form => exact ⟨found, hfound, by rw [hafter, found_of_openScope hnext]⟩
    | closeScope o form => exact ⟨found, hfound, by rw [hafter, found_of_closeScope hnext]⟩

/-! ### With and without a resolver -/

/-- The walk with all paths resolved. -/
def resolve (s : Settings) (w : Walk) : Walk :=
  { w with found := w.found.map (·.resolved s) }

theorem dependencies_resolve (v : Walk) (s : Settings) :
    (v.resolve s).dependencies = v.dependencies.map (·.resolved s) :=
  Dependency.inLineOrder_map (Dependency.line_resolved s) v.found

theorem record_resolve (v : Walk) (s : Settings) (c : Contribution) :
    (v.resolve s).record s c = (v.record { s with resolver := none } c).resolve s := by
  unfold record resolve
  cases c.dependency with
  | none => simp
  | some found => simp [Dependency.resolved_none]

/-- A rule never asks for a resolver. -/
theorem read_resolver (rule : Rule) (s : Settings) (p : Placed) :
    rule.read s p = rule.read { s with resolver := none } p :=
  Rule.read_eq ⟨fun _ _ => rfl, rfl, rfl⟩ (Rule.dependencyAt_congr rfl rfl p.node)

/-- A step with a resolver does what the step without it does. -/
theorem agree_perform_resolve (v : Walk) (task : Task) :
    Agree (fun v w => w = v.resolve s) (v.perform d { s with resolver := none } task)
      ((v.resolve s).perform d s task) := by
  cases task with
  | visit p =>
    simp only [perform]
    cases d.ruleFor p.node with
    | none =>
      exact agree_meetUnknown (R := fun v w => w = v.resolve s) (v := v) (w := v.resolve s)
        rfl rfl rfl rfl (fun _ _ => rfl) p.node
    | some rule =>
      simp only [read_resolver rule s]
      refine Agree.bind_same _ fun c => ?_
      exact .ok (record_resolve v s c)
  | openScope p rule form =>
    refine Agree.bind_same _ fun lines => ?_
    cases form <;> exact .ok rfl
  | closeScope form => exact Agree.bind_same _ fun tree => .ok rfl

end Walk

namespace Dialect

variable {name : String} {d : Dialect} {s : Settings} {root : Document} {w : Walk}

/-- A traversal with a resolver is one without it, with the paths resolved at its end. -/
theorem walk_eq_resolve (d : Dialect) (s : Settings) (root : Document) :
    d.walk s root = (d.walk { s with resolver := none } root).map (Walk.resolve s) := by
  refine Agree.eq_map (walks_agree (fun _ => rfl) ?_ ?_)
  · intro p
    unfold ignored?
    cases d.ruleFor p.node with
    | none => rfl
    | some rule => simp only [Walk.read_resolver rule s]
  · rintro task v w rfl
    exact Walk.agree_perform_resolve v task

/-- What a resolver would do to the marker of a dynamic path does not matter, since it is never
asked. -/
theorem walk_eq_of_resolvers {r r' : Resolver}
    (h : ∀ path, path ≠ .string Dependency.dynamicPath → r'.resolve path = r.resolve path) :
    d.walk { s with resolver := some r' } root = d.walk { s with resolver := some r } root := by
  have hresolved : (Dependency.resolved { s with resolver := some r' } :
      Dependency Int → Dependency Int) = Dependency.resolved { s with resolver := some r } := by
    funext found
    unfold Dependency.resolved
    cases hdynamic : found.path.isOneOf [Dependency.dynamicPath] with
    | true => rfl
    | false =>
      have hpath : found.path ≠ .string Dependency.dynamicPath := by
        intro hpath
        rw [Dependency.isDynamic_iff.mpr hpath] at hdynamic
        cases hdynamic
      simp only [h found.path hpath]
  rw [walk_eq_resolve d { s with resolver := some r' },
    walk_eq_resolve d { s with resolver := some r }]
  unfold Walk.resolve
  rw [hresolved]

/-- The dependencies of a module are those found at the nodes that can be reached, one for each
place where there is one, in the order of their lines. -/
theorem dependencies_reported (standard : (name, d) ∈ Registry.standard.entries)
    (done : d.walk s root = .ok w) :
    ((d.journal s root).visited.map Occurrence.path).Nodup ∧
    (∀ o, o ∈ (d.journal s root).visited ↔ d.Reaches s (d.top root) o) ∧
    (∃ found, (d.journal s root).visited.mapM (fun o => Dependency.foundAt name s o.place.node) =
        .ok found ∧
      Dependency.IsLineOrderOf w.dependencies (found.reduceOption.map (·.resolved s))) ∧
    (∃ v, d.walk { s with resolver := none } root = .ok v ∧
      List.Forall₂ (Dependency.Resolves s.resolver) v.dependencies w.dependencies) ∧
    (∀ r r' : Resolver, s.resolver = some r →
      (∀ path, path ≠ .string Dependency.dynamicPath → r'.resolve path = r.resolve path) →
        d.walk { s with resolver := some r' } root = .ok w) ∧
    ∀ report, d.measure s root = .ok report →
      report.dependencies = w.dependencies.map (·.map Document.int) := by
  refine ⟨nodup_path_visited d s root, ?_, ?_, ?_, ?_, ?_⟩
  · exact fun o => ⟨reaches_of_mem_visited, mem_visited_of_reaches done⟩
  · obtain ⟨-, lines, hperform⟩ := performAll_of_walk done
    obtain ⟨found, hfound, hrecorded⟩ := Walk.found_of_performAll hperform
    simp only [dependencyAt_eq standard] at hfound
    refine ⟨found, hfound, ?_⟩
    rw [Walk.dependencies, hrecorded]
    exact Dependency.isLineOrderOf_inLineOrder _
  · rw [walk_eq_resolve] at done
    cases hplain : d.walk { s with resolver := none } root with
    | error e =>
      rw [hplain] at done
      cases done
    | ok v =>
      rw [hplain] at done
      cases done
      refine ⟨v, rfl, ?_⟩
      rw [Walk.dependencies_resolve, List.forall₂_map_right_iff, List.forall₂_same]
      exact fun found _ => Dependency.resolves_resolved s found
  -- Dynamic paths are never asked of the resolver, so its answer for them does not matter.
  · intro r r' hr hsame
    have hs : { s with resolver := some r } = s := by rw [← hr]
    rw [walk_eq_of_resolvers hsame, hs, done]
  · intro report hreport
    obtain ⟨w', hw', hreport⟩ := exists_of_bind_eq_ok hreport
    cases done.symm.trans hw'
    obtain ⟨exact, hfrom⟩ := assembled_of_build done (eq_ok_of_mapError hreport)
    exact hfrom.dependencies

end Dialect

namespace Sample

/-- A location on one line. -/
def onLine (line : Int) : String × Document :=
  linesFrom line line

/-- A module that refers to others in a node of an unknown kind inside a function, by an import, by
an export, and by a call whose path is not known. Two of the references stand on one line. -/
def scattered : Document :=
  node "Program"
    [("body", .list
      [node "ExpressionStatement"
        [("expression", function []
          [node "Riddle" [("answer", load (name "require") "a" [onLine 7])]])],
       node "ImportDeclaration"
        [("source", node "Literal" [("value", .string "b")]), onLine 3],
       node "ExportAllDeclaration"
        [("source", node "Literal" [("value", .string "a")]), onLine 7],
       node "ExpressionStatement"
        [("expression", node "CallExpression"
          [("callee", name "require"), ("arguments", .list [name "x"]), onLine 1])]]),
     ("loc", location)]

/-- A resolver that knows one path, and has no text for another. It would replace the marker. -/
def pathResolver : Resolver :=
  { name := "paths"
    resolve := fun path =>
      if path.isOneOf ["a"] then .string "lib/a" else if path.isOneOf ["b"] then .null
      else .string "other" }

/-- The same for all paths but the marker. -/
def shyResolver : Resolver :=
  { pathResolver with
    resolve := fun path =>
      if path.isOneOf [Dependency.dynamicPath] then .null else pathResolver.resolve path }

/-- Settings by which calls of `require` are dependencies, with a resolver. -/
def resolving (r : Resolver) : Settings :=
  { commonjs := .bool true, resolver := some r }

end Sample

/-- The reference in the function is met first, and that in the last statement stands first. Both
references to the one path are replaced, that to the other path is kept, and so is the marker. -/
theorem dependencies_reported_scattered :
    let s := Sample.resolving Sample.pathResolver
    let visited := (Babel.dialect.journal s Sample.scattered).visited
    ("babel", Babel.dialect) ∈ Registry.standard.entries ∧
    ∃ v w found report, Babel.dialect.walk s Sample.scattered = .ok w ∧
      w.found.map (fun found => (found.line, found.path.text?, found.type)) =
        [(7, some "lib/a", "cjs"), (3, some "b", "esm"), (7, some "lib/a", "esm"),
          (1, some Dependency.dynamicPath, "cjs")] ∧
      visited.mapM (fun o => Dependency.foundAt "babel" s o.place.node) = .ok found ∧
      Dependency.IsLineOrderOf w.dependencies (found.reduceOption.map (·.resolved s)) ∧
      Babel.dialect.walk { s with resolver := none } Sample.scattered = .ok v ∧
      List.Forall₂ (Dependency.Resolves s.resolver) v.dependencies w.dependencies ∧
      Babel.dialect.walk (Sample.resolving Sample.shyResolver) Sample.scattered = .ok w ∧
      Babel.dialect.measure s Sample.scattered = .ok report ∧
      report.dependencies = w.dependencies.map (·.map Document.int) := by
  intro s visited
  have hstandard : ("babel", Babel.dialect) ∈ Registry.standard.entries :=
    List.mem_cons_of_mem _ List.mem_cons_self
  have hrecorded : (Babel.dialect.walk s Sample.scattered).toOption.map
      (fun w => w.found.map fun found => (found.line, found.path.text?, found.type)) =
      some [(7, some "lib/a", "cjs"), (3, some "b", "esm"), (7, some "lib/a", "esm"),
        (1, some Dependency.dynamicPath, "cjs")] := by
    rw [Babel.dialect_eq]
    decide +kernel
  obtain ⟨w, done, hlisted⟩ := exists_ok_of_map_toOption hrecorded
  have hreport : ∃ report, Babel.dialect.analyze s Sample.scattered = .ok report := by
    have hshaped : Sample.scattered.isShapedTo 16 = true := by decide +kernel
    have hsize : Sample.scattered.size < 2 ^ 96 := by decide +kernel
    exact Dialect.exists_report_of_isShapedTo hstandard rfl rfl hshaped hsize
  obtain ⟨report, hreport⟩ := hreport
  obtain ⟨-, -, hreport⟩ := exists_of_bind_eq_ok hreport
  obtain ⟨-, -, ⟨found, hfound, horder⟩, ⟨v, hv, hresolves⟩, hasked, hdependencies⟩ :=
    Dialect.dependencies_reported hstandard done
  refine ⟨hstandard, v, w, found, report, done, hlisted, hfound, horder, hv, hresolves, ?_, hreport,
    hdependencies report hreport⟩
  -- The shy resolver answers as the other one does, apart from the path of the marker.
  refine hasked Sample.pathResolver Sample.shyResolver rfl fun path hpath => ?_
  have hnot : ¬path.isOneOf [Dependency.dynamicPath] = true :=
    fun h => hpath (Dependency.isDynamic_iff.mp h)
  exact if_neg hnot

end CodeMetrics
