import CodeMetrics.Proofs.Dialect.Table
import CodeMetrics.Proofs.Rule.Remark
import CodeMetrics.Proofs.Traversal.Journal

/-!
# `CodeMetrics.Proofs.Traversal.Remark`: traversals do not depend on remarks

Comments, tokens, offsets, raw texts and links back to the parent can be added, left out or
replaced at any node of a tree. The traversal with a built-in dialect gives the same walk or fails
with the same error (`walk_eq_of_remarked`), whatever stands there, nodes included.

At each place the two traversals read the same contribution and open the same scope, and the
children that they go on with hang at the same places. `traverse_eq_of_remarked` is the induction
on the tree.
-/

set_option autoImplicit false

namespace CodeMetrics

/-- Children that differ in remarks only hang at places that do. -/
theorem Child.Remarked.placed {c c' : Child} {parent parent' : Document} (h : c.Remarked c')
    (hparent : parent.Remarked parent') : (c.placed parent).Remarked (c'.placed parent') where
  node := h.node
  parent := hparent
  slot := by
    unfold Child.placed
    rw [h.key, h.direct]

namespace Walk

variable {d : Dialect} {s : Settings} {p q : Placed}

theorem meetUnknown_eq_of_remarked (h : p.Remarked q) (w : Walk) :
    w.meetUnknown d s q.node = w.meetUnknown d s p.node := by
  have hkind : reportedKind q.node = reportedKind p.node := by
    rw [reportedKind, reportedKind, h.node.kind?_eq]
  unfold meetUnknown unknownKind
  rw [h.node.lines?_eq, hkind]

/-- The same scope is opened. -/
theorem openScope_eq_of_remarked (h : p.Remarked q) (hnode : p.node.isNode)
    (legible : p.node.Legible d s) (hparent : p.parent.Legible d s) (w : Walk) (rule : Rule)
    (form : ScopeForm) : w.openScope q rule form = w.openScope p rule form := by
  have hname : rule.naming.bind (·.name? q) = rule.naming.bind (·.name? p) := by
    cases rule.naming with
    | none => rfl
    | some naming => exact h.name?_eq hnode legible hparent naming
  have hsuper : (q.node.get "superClass").name? = (p.node.get "superClass").name? :=
    (h.node.get (by decide)).name?_eq (legible.get hnode (by decide))
  unfold openScope
  rw [h.node.lines?_eq, hname, hsuper, h.node.parameterNames_eq legible hnode]

/-- Children are traversed alike, if each of them is. -/
theorem traverseAll_eq_of_remarked {parent parent' : Document} {cs cs' : List Child}
    (hcs : List.Forall₂ Child.Remarked cs cs')
    (h : ∀ c ∈ cs, ∀ c', c.Remarked c' → ∀ w : Walk,
      w.traverse d s (c'.placed parent') = w.traverse d s (c.placed parent)) (w : Walk) :
    w.traverseAll d s parent' cs' = w.traverseAll d s parent cs := by
  induction hcs generalizing w with
  | nil => rw [traverseAll, traverseAll]
  | cons hchild hrest ih =>
    rw [List.forall_mem_cons] at h
    rw [traverseAll, traverseAll, h.1 _ hchild]
    exact bind_congr fun w => ih h.2 w

/-- With rules that overlook remarks, trees that differ in remarks only are traversed alike. -/
theorem traverse_eq_of_remarked (overlooks : ∀ entry ∈ d.rules, entry.2.overlooks)
    (h : p.Remarked q) (legible : p.everywhere (d.legible s)) (hparent : p.parent.Legible d s)
    (w : Walk) : w.traverse d s q = w.traverse d s p := by
  induction hsize : p.node.size using Nat.strongRecOn generalizing w p q with
  | ind size ih =>
    have hlegible : p.node.Legible d s := fun _ => ⟨p, rfl, legible⟩
    -- Whichever children are traversed, they hang below a legible node.
    have hchildren : ∀ (ignored : List String) (keep : String → Bool) (w : Walk),
        w.traverseAll d s q.node ((q.node.children ignored).filter (keep ·.key)) =
          w.traverseAll d s p.node ((p.node.children ignored).filter (keep ·.key)) := by
      intro ignored keep w
      refine traverseAll_eq_of_remarked (List.rel_filter ?_ (h.node.children ignored)) ?_ w
      · intro c c' hc
        show keep c.key = true ↔ keep c'.key = true
        rw [hc.key]
      · intro c hc c' hcc' w
        have hmem := (List.mem_filter.mp hc).1
        have hall : c ∈ p.node.children [] := by
          rw [Document.children_eq_filter] at hmem
          exact (List.mem_filter.mp hmem).1
        exact ih _ (hsize ▸ Document.size_lt_of_mem_children hmem) (hcc'.placed h.node)
          ((Placed.everywhere_iff.mp legible).2 c hall) hlegible w rfl
    have hplain : ∀ (ignored : List String) (w : Walk),
        w.traverseAll d s q.node (q.node.children ignored) =
          w.traverseAll d s p.node (p.node.children ignored) := by
      intro ignored w
      have hkeep := hchildren ignored (fun _ => true) w
      rwa [List.filter_true, List.filter_true] at hkeep
    rw [traverse, traverse, h.ruleFor_eq]
    cases hrule : d.ruleFor p.node with
    | none =>
      dsimp only
      rw [meetUnknown_eq_of_remarked h]
      exact bind_congr fun w => hplain [] w
    | some rule =>
      obtain ⟨kind, hkind, hfind⟩ := Option.bind_eq_some_iff.mp hrule
      have hread := h.read_eq hrule (overlooks _ (Dialect.mem_of_find hfind)) legible
      have hopen := openScope_eq_of_remarked h (Document.isNode_of_kind? hkind) hlegible hparent
      dsimp only
      rw [hread]
      refine bind_congr fun c => ?_
      cases rule.opens with
      | none => exact hplain c.ignored _
      | some form =>
        dsimp only
        rw [hchildren c.ignored rule.scopeKeys.contains]
        refine bind_congr fun w => ?_
        rw [hopen]
        refine bind_congr fun w => ?_
        rw [hchildren c.ignored fun key => !rule.scopeKeys.contains key]

end Walk

namespace Dialect

/-- The kind that a root is taken for does not change its lines. -/
theorem lines?_typedRoot (d : Dialect) (root : Document) :
    (d.typedRoot root).lines? = root.lines? := by
  unfold typedRoot
  split
  · rfl
  · cases root with
    | object fields =>
      rw [Document.set, Document.lines?, Document.lines?, Document.get, Document.get,
        Document.field?, Document.field?, Document.lookup_assign, if_neg (by decide)]
    | _ => rfl

/-- Remarks never matter: two trees that differ in comments and positions only, at whatever nodes,
give the same walk with a built-in dialect, or the same error. -/
theorem walk_eq_of_remarked {name : String} {d : Dialect}
    (builtin : (name, d) ∈ Registry.standard.entries) (s : Settings) {a b : Document}
    (remarked : (d.typedRoot a).Remarked (d.typedRoot b))
    (legible : Placed.everywhere (d.legible s) { node := d.typedRoot a }) :
    d.walk s b = d.walk s a := by
  have hlines : b.lines? = a.lines? := by
    rw [← d.lines?_typedRoot b, remarked.lines?_eq, d.lines?_typedRoot]
  have hroot : Placed.Remarked { node := d.typedRoot a } { node := d.typedRoot b } :=
    ⟨remarked, .same _, rfl⟩
  have hparent : Document.null.Legible d s := fun h => absurd h (by decide)
  unfold walk
  rw [hlines]
  refine bind_congr fun lines => ?_
  cases lines with
  | none => rfl
  | some lines =>
    dsimp only
    rw [Walk.run_visit_eq_traverse, Walk.run_visit_eq_traverse,
      Walk.traverse_eq_of_remarked (overlooks_standard _ builtin) hroot legible hparent]

end Dialect

/-! ### A module with remarks

One node is the function that is called, another a regular expression. The value of the regular
expression is an object, but it is not read.
-/

namespace Sample

/-- The module with remarks at the root, at the function and at the regular expression. -/
def withRemarks (root inner literal : List (String × Document)) : Document :=
  node "Program" (root ++
    [("body", .list [node "CallExpression"
      [("callee", node "FunctionExpression" (inner ++ [("params", .list [name "x"]),
        ("body", node "Literal" ([("value", .object []), ("regex", .object
          [("pattern", .string "a+"), ("flags", .string "g")])] ++ literal))])),
       ("arguments", .list [name "y"])]]),
     ("loc", location)])

/-- A comment that holds nodes, one of a known kind and one of a kind that no dialect knows. -/
def comment : Document :=
  .list [function [] [name "z"], node "Line" [("value", .string "note")]]

/-- Comments can be left out at one node, added at another and replaced at a third. -/
theorem remarked : (withRemarks [("comments", comment)] [] [("extra", comment)]).Remarked
    (withRemarks [] [("leadingComments", comment), ("parent", .int 3)] [("extra", .null)]) := by
  refine .node rfl rfl rfl rfl (.cons (.list (.cons (.node rfl rfl rfl rfl
    (.cons (.node rfl rfl rfl rfl (.cons (.same _) (.cons ?_ .nil))) (.cons (.same _) .nil)))
      .nil)) .nil)
  exact Document.Remarked.set rfl (by decide : "extra" ∈ remarkKeys) .null

end Sample

/-- The two modules have the same walk in strict mode, although the comments hold a node of an
unknown kind. It opens one function and meets no problem. -/
theorem walk_eq_of_remarked_strict :
    Estree.dialect.walk { strict := .bool true }
        (Sample.withRemarks [] [("leadingComments", Sample.comment), ("parent", .int 3)]
          [("extra", .null)]) =
      Estree.dialect.walk { strict := .bool true }
        (Sample.withRemarks [("comments", Sample.comment)] [] [("extra", Sample.comment)]) ∧
    (Estree.dialect.walk { strict := .bool true } (Sample.withRemarks
        [("comments", Sample.comment)] [] [("extra", Sample.comment)])).toOption.map
      (fun w => (w.tree.functions.length, w.errors.length)) = some (1, 0) :=
  ⟨Dialect.walk_eq_of_remarked (List.mem_cons_self : ("estree", _) ∈ _) _ Sample.remarked
    (by decide +kernel), by decide +kernel⟩

end CodeMetrics
