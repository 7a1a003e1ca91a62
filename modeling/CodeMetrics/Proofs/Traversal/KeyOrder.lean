import CodeMetrics.Proofs.Rule.Reading
import CodeMetrics.Proofs.Traversal.Record
import CodeMetrics.Proofs.Traversal.Warning

/-!
# `CodeMetrics.Proofs.Traversal.KeyOrder`: the order of keys does not matter for the counts

A traversal meets children in the order of their keys. Another order of keys opens scopes in
another order and gives them other numbers. What is counted is the same, scope for scope
(`Dialect.key_order_invariant`).

The children of a node are those of its reordering in another order, and each of them is in
turn a reordering. Views add up, so the induction goes over trees and never compares two
lists of scopes (`Dialect.ofResult_harvest_eq`).
-/

set_option autoImplicit false

namespace CodeMetrics

/-- Sums over children that are alike are the same, if the terms are. -/
theorem Child.AllAlike.sum_eq {t : List (String × Document) → Bool} {cs cs' : List Child}
    (h : Child.AllAlike t cs cs') {M : Type} [AddCommMonoid M] {f g : Child → M}
    (hterm : ∀ c ∈ cs, ∀ c', c.Alike t c' → f c = g c') : (cs.map f).sum = (cs'.map g).sum := by
  obtain ⟨moved, order, same⟩ := h
  have hmoved : ∀ c ∈ moved, ∀ c', c.Alike t c' → f c = g c' :=
    fun c hc => hterm c (order.mem_iff.mpr hc)
  rw [(order.map f).sum_eq]
  clear order hterm
  induction same with
  | nil => rfl
  | cons hchild hrest ih =>
    rw [List.map_cons, List.map_cons, List.sum_cons, List.sum_cons,
      hmoved _ List.mem_cons_self _ hchild, ih fun c hc => hmoved c (List.mem_cons_of_mem _ hc)]

namespace View

/-- A scope at places that are alike is the same around a view. -/
theorem enclose_eq {d : Dialect} {p q : Placed} (h : Placed.Alike d.plainTexts p q)
    (form : ScopeForm) (rule : Rule) : enclose form rule p = enclose form rule q := by
  have hname : rule.naming.bind (·.name? p) = rule.naming.bind (·.name? q) := by
    cases rule.naming with
    | none => rfl
    | some naming => exact h.name?_eq naming
  unfold enclose
  rw [hname, (h.node.get "superClass").name?_eq, h.node.parameterNames_eq]

/-- The view of a node that opens a scope: what the node adds, what is outside of the scope,
and what is inside. Without usable lines there is none. -/
theorem ofResult_scope {α : Type} (y : Yield Gain) (outside : Except Error (Yield Gain))
    (lines : Except Error α) (inside : α → Except Error (Yield Gain))
    (around : α → Yield Gain → Yield Gain) :
    ofResult (do
      let o ← outside
      let own ← lines
      let i ← inside own
      return y ++ (o ++ around own i)) =
    y.view + (ofResult outside +
      ofResult (do
        let own ← lines
        let i ← inside own
        return around own i)) := by
  cases outside with
  | error e => rfl
  | ok o =>
    cases lines with
    | error e => rfl
    | ok own =>
      show ofResult (inside own >>= fun i => pure (y ++ (o ++ around own i))) =
        y.view + (o.view + ofResult (inside own >>= fun i => pure (around own i)))
      cases inside own with
      | error e => rfl
      | ok i =>
        show ((y ++ (o ++ around own i)).view : WithTop View) = _
        rw [Yield.view_append, Yield.view_append]
        rfl

end View

namespace Dialect

variable {d : Dialect} {s : Settings}

/-- A node of an unknown kind yields the same. -/
theorem ofUnknown_eq {a b : Document} (h : Document.Alike d.plainTexts a b) :
    Yield.ofUnknown d s a = Yield.ofUnknown d s b := by
  unfold Yield.ofUnknown Walk.unknownKind Walk.reportedKind
  rw [h.lines?_eq, h.kind?_eq]

/-- Trees at places that are alike yield the same, in another order. -/
theorem ofResult_harvest_eq {p q : Placed} (h : Placed.Alike d.plainTexts p q)
    (lines : Lines Int) :
    View.ofResult (d.harvest s lines p) = View.ofResult (d.harvest s lines q) := by
  induction hsize : p.node.size using Nat.strongRecOn generalizing p q lines with
  | ind size ih =>
    -- The views of the children add up, so their order does not matter.
    have hall : ∀ (lines : Lines Int) {ignored : List String} {cs cs' : List Child},
        (∀ c ∈ cs, c ∈ p.node.children ignored) → Child.AllAlike d.plainTexts cs cs' →
          View.ofResult (d.harvestAll s lines p.node cs) =
            View.ofResult (d.harvestAll s lines q.node cs') := by
      intro lines ignored cs cs' hcs halike
      rw [ofResult_harvestAll, ofResult_harvestAll]
      refine halike.sum_eq fun c hc c' hcc' => ?_
      have hlt : c.node.size < size := hsize ▸ Document.size_lt_of_mem_children (hcs c hc)
      exact ih _ hlt (hcc'.placed h.node) lines rfl
    rw [harvest, harvest, ← h.ruleFor_eq]
    cases hrule : d.ruleFor p.node with
    | none =>
      simp only [View.ofResult_append]
      rw [ofUnknown_eq h.node, hall lines (fun _ hc => hc) (h.node.children [])]
    | some rule =>
      simp only [h.read_eq hrule]
      cases hread : rule.read s q with
      | error fault => rfl
      | ok c =>
        have hchildren := h.node.children c.ignored
        cases hopens : rule.opens with
        | none =>
          show View.ofResult (do let y ← pure _; let z ← _; return y ++ z) =
            View.ofResult (do let y ← pure _; let z ← _; return y ++ z)
          rw [View.ofResult_append, View.ofResult_append,
            hall lines (fun _ hc => hc) hchildren]
        | some form =>
          have hfilter : ∀ keep : Child → Bool, ∀ child ∈ (p.node.children c.ignored).filter keep,
              child ∈ p.node.children c.ignored := fun keep _ hc => (List.mem_filter.mp hc).1
          have houtside := hall lines (hfilter _)
            (hchildren.filter fun key => rule.scopeKeys.contains key)
          have hinside := fun lines => hall lines (hfilter _)
            (hchildren.filter fun key => !rule.scopeKeys.contains key)
          refine (View.ofResult_scope _ _ _ _ _).trans
            (Eq.trans ?_ (View.ofResult_scope _ _ _ _ _).symm)
          rw [houtside, h.node.lines?_eq]
          cases q.node.lines? with
          | error fault => rfl
          | ok found =>
            show _ + (_ + View.ofResult (do let i ← _; return Yield.enclose _ form rule p _ i)) =
              _ + (_ + View.ofResult (do let i ← _; return Yield.enclose _ form rule q _ i))
            rw [View.ofResult_enclose, View.ofResult_enclose, hinside, View.enclose_eq h]

end Dialect

/-! ### Whole trees -/

namespace Dialect

variable {d : Dialect} {s : Settings} {a b : Document}

/-- The roots of reorderings are alike, also where they get a kind. -/
theorem typedRoot_alike (reordered : a.Reordered b) (distinct : a.everyObject Document.distinctKeys)
    (plain : (d.typedRoot a).everyObject d.plainTexts) :
    Document.Alike d.plainTexts (d.typedRoot a) (d.typedRoot b) := by
  have hnode : a.isNode = b.isNode := Document.Alike.isNode_eq ⟨reordered, distinct, distinct⟩
  unfold typedRoot at plain ⊢
  rw [← hnode]
  cases h : a.isNode with
  | true =>
    rw [h] at plain
    exact ⟨reordered, distinct, plain⟩
  | false =>
    rw [h] at plain
    exact ⟨reordered.set distinct _ _, Document.distinct_set distinct _ _, plain⟩

/-- Walks over trees whose yields have the same view have counted the same. -/
theorem same_of_view_eq {v w : Walk} {lines : Lines Int} {y z : Yield Gain}
    (hv : v = { tree := ScopeTree.start lines : Walk }.extend y)
    (hw : w = { tree := ScopeTree.start lines : Walk }.extend z) (h : y.view = z.view) :
    v.tree.module.counts = w.tree.module.counts ∧
    v.dependencies.Perm w.dependencies ∧
    ∀ kind, kind ∈ v.unsupported ↔ kind ∈ w.unsupported := by
  subst hv hw
  refine ⟨?_, ?_, fun kind => ?_⟩
  · have htotal : y.total.counts = z.total.counts := congrArg View.total h
    show (Scope.collect _ _).counts = (Scope.collect _ _).counts
    rw [Scope.counts_collect, Scope.counts_collect, htotal]
  · have hfound : (y.found : Multiset (Dependency Int)) = z.found := congrArg View.found h
    exact (List.mergeSort_perm _ _).trans
      ((Multiset.coe_eq_coe.mp hfound).trans (List.mergeSort_perm _ _).symm)
  · have hunknown : ((y.unknown.map Prod.fst : List String) : Multiset String) =
        (z.unknown.map Prod.fst : List String) := congrArg View.unknown h
    show kind ∈ (Walk.noteAll _ _).2 ↔ kind ∈ (Walk.noteAll _ _).2
    rw [Walk.mem_noteAll, Walk.mem_noteAll, (Multiset.coe_eq_coe.mp hunknown).mem_iff]

/-- Two trees that differ in the order of keys are counted alike, if no object has a key twice
and what is read as text is no list and no object. One traversal comes to its end if the other
does. Then the module has the same counts, and the functions, the classes and the dependencies
are the same up to their order, where functions without names of their own are not told apart
by the names they are given. The same kinds are unknown. -/
theorem key_order_invariant (reordered : a.Reordered b)
    (distinct : a.everyObject Document.distinctKeys)
    (plain : (d.typedRoot a).everyObject d.plainTexts) :
    ((∃ v, d.walk s a = .ok v) ↔ ∃ w, d.walk s b = .ok w) ∧
    ∀ v w, d.walk s a = .ok v → d.walk s b = .ok w →
      v.tree.module.counts = w.tree.module.counts ∧
      (d.functionRecords s a v).Perm (d.functionRecords s b w) ∧
      (d.classRecords s a v).Perm (d.classRecords s b w) ∧
      v.dependencies.Perm w.dependencies ∧
      ∀ kind, kind ∈ v.unsupported ↔ kind ∈ w.unsupported := by
  have hroot := typedRoot_alike reordered distinct plain
  have hlines : a.lines? = b.lines? := Document.Alike.lines?_eq ⟨reordered, distinct, distinct⟩
  have hview : ∀ lines, View.ofResult (d.harvest s lines { node := d.typedRoot a }) =
      View.ofResult (d.harvest s lines { node := d.typedRoot b }) :=
    ofResult_harvest_eq ⟨hroot, .null, rfl⟩
  constructor
  · rw [exists_walk_iff, exists_walk_iff]
    simp only [hlines, hview]
  · intro v w hv hw
    obtain ⟨lines, y, husable, hy, hextend⟩ := exists_yield hv
    obtain ⟨lines', z, husable', hz, hextend'⟩ := exists_yield hw
    -- Both start from the lines of the root, and those are the same.
    rw [hlines, husable'] at husable
    cases husable
    have hsame : y.view = z.view := by
      have hlifted := hview lines
      rw [hy, hz] at hlifted
      exact WithTop.coe_inj.mp hlifted
    obtain ⟨hmodule, hfound, hunknown⟩ := same_of_view_eq hextend hextend' hsame
    refine ⟨hmodule, ?_, ?_, hfound, hunknown⟩
    · rw [functionRecords_eq hv hy hextend, functionRecords_eq hw hz hextend']
      exact Multiset.coe_eq_coe.mp (congrArg View.functions hsame)
    · rw [classRecords_eq hv hy hextend, classRecords_eq hw hz hextend']
      exact Multiset.coe_eq_coe.mp (congrArg View.classes hsame)

end Dialect

/-! ### A module with its keys turned around

The function is met before the class in one order and after the method of the class in the
other. The kind of the last child is unknown.
-/

namespace Sample

/-- The fields of a class declaration with a method, turned around. -/
def turnedClass : Document :=
  .object
    [("body", node "ClassBody"
      [("body", .list [node "MethodDefinition"
        [("key", name "run"), ("value", function [] [name "x"])]])]),
     ("id", name "Outer"), ("type", .string "ClassDeclaration")]

/-- The fields of the module, with a class declaration. -/
def mixedFields (declaration : Document) : List (String × Document) :=
  [("type", .string "Program"), ("first", function [name "y"] [name "y", name "z"]),
   ("body", .list [declaration]), ("odd", node "Odd" []), ("loc", location)]

/-- The module. -/
def mixed : Document :=
  .object (mixedFields (classWith "Outer" "run" (function [] [name "x"])))

/-- The module with its keys and those of the class turned around. -/
def turned : Document :=
  .object (mixedFields turnedClass).reverse

theorem mixed_reordered : mixed.Reordered turned := by
  have hclass : (classWith "Outer" "run" (function [] [name "x"])).Reordered turnedClass :=
    .object (List.reverse_perm _).symm rfl
      (.cons (.refl _) (.cons (.refl _) (.cons (.refl _) .nil)))
  exact .object (List.reverse_perm _).symm rfl
    (.cons (.refl _) (.cons (.refl _) (.cons (.list (.cons hclass .nil))
      (.cons (.refl _) (.cons (.refl _) .nil)))))

end Sample

/-- The module in both orders. The functions are opened in another order, and they are the
same functions, with the same method in the class. -/
theorem key_order_invariant_turned :
    ∃ v w, Estree.dialect.walk {} Sample.mixed = .ok v ∧
      Estree.dialect.walk {} Sample.turned = .ok w ∧
      v.tree.functions.map Scope.paramCount = [1, 0] ∧
      w.tree.functions.map Scope.paramCount = [0, 1] ∧
      v.tree.module.counts = w.tree.module.counts ∧
      (Estree.dialect.functionRecords {} Sample.mixed v).Perm
        (Estree.dialect.functionRecords {} Sample.turned w) ∧
      (Estree.dialect.classRecords {} Sample.mixed v).Perm
        (Estree.dialect.classRecords {} Sample.turned w) := by
  have hmixed : (Estree.dialect.walk {} Sample.mixed).toOption.map
      (fun w => w.tree.functions.map Scope.paramCount) = some [1, 0] := by decide +kernel
  have hturned : (Estree.dialect.walk {} Sample.turned).toOption.map
      (fun w => w.tree.functions.map Scope.paramCount) = some [0, 1] := by decide +kernel
  obtain ⟨v, hwalk, hparams⟩ := exists_ok_of_map_toOption hmixed
  obtain ⟨w, hwalk', hparams'⟩ := exists_ok_of_map_toOption hturned
  obtain ⟨-, hsame⟩ := Dialect.key_order_invariant (s := {}) Sample.mixed_reordered
    (by decide +kernel) (by decide +kernel : (Estree.dialect.typedRoot Sample.mixed).everyObject
      Estree.dialect.plainTexts)
  obtain ⟨hmodule, hfunctions, hclasses, -⟩ := hsame v w hwalk hwalk'
  exact ⟨v, w, hwalk, hwalk', hparams, hparams', hmodule, hfunctions, hclasses⟩

end CodeMetrics
