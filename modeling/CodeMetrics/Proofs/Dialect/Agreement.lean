import CodeMetrics.Proofs.Dialect.Method
import CodeMetrics.Proofs.Traversal.Journal

/-!
# `CodeMetrics.Proofs.Dialect.Agreement`: both dialects count a program alike

Walking a Babel tree and walking its ESTree gives the same scopes with the same numbers, up to
the order in which the tokens of a scope are tallied.
-/

set_option autoImplicit false

namespace CodeMetrics

namespace Babel

open Document

variable {fields : List (String × Document)} {s : Settings} {lines : Lines Int} {p q : Placed}

/-! ### Whole trees -/

/-- A number is no collection. -/
theorem scalar_of_number {d : Document} (h : d.number?.isSome) : d.isCollection = false := by
  cases d with
  | list items => cases h
  | object fields => cases h
  | _ => rfl

/-- Kinds that only change their name are treated alike under both names. -/
theorem renamed_facts {kind other : String} (known : (kind, other) ∈ renamings) :
    estreeKind kind = other ∧ isShared other ∧ sameBinder kind other ∧
      (∀ kinds ∈ askedParents, kinds.contains other = kinds.contains kind) ∧
      kind ≠ "Directive" := by
  have hall : ∀ entry ∈ renamings, estreeKind entry.1 = entry.2 ∧ isShared entry.2 ∧
      sameBinder entry.1 entry.2 ∧
      (∀ kinds ∈ askedParents, kinds.contains entry.2 = kinds.contains entry.1) ∧
      entry.1 ≠ "Directive" := by decide +kernel
  exact hall _ known

/-- Kinds that only change their name have the same rule under both names. -/
theorem rule?_of_renamed {kind other : String} (known : (kind, other) ∈ renamings) :
    dialect.rule? kind = Estree.dialect.rule? other := by
  simp only [renamings, List.mem_cons, Prod.mk.injEq, List.not_mem_nil, or_false] at known
  rcases known with ⟨rfl, rfl⟩ | ⟨rfl, rfl⟩ | ⟨rfl, rfl⟩ | ⟨rfl, rfl⟩ <;>
    exact (rule?_own rfl).trans rfl

/-- A tree and its translation count the same. -/
theorem counted_harvest (h : Counterparts p q) :
    counted (Estree.dialect.harvest s lines q) = counted (dialect.harvest s lines p) := by
  induction hsize : p.node.size using Nat.strongRecOn generalizing p q lines with
  | ind size ih =>
    have hsmaller : CountedBelow s p.node.size :=
      fun lines p' q' hlt h' => ih _ (hsize ▸ hlt) h' rfl
    obtain ⟨kind, hkind⟩ := Option.isSome_iff_exists.mp h.isNode
    cases hnode : p.node with
    | object fields =>
      obtain ⟨hshape, hfields⟩ := shape_of_wellFormed (hnode ▸ hkind) (hnode ▸ h.wellFormed)
      have hother : q.node.kind? = some (estreeKind kind) := by
        rw [h.node, kind?_translate, hkind, Option.map_some]
      -- Shared and renamed nodes are compared field by field. The others are rebuilt by the
      -- translation, each in its own way.
      cases hshape with
      | shared known plain =>
        have hestree : estreeKind kind = kind := by rw [estreeKind, form_of_shared known]
        have hmirrors : Mirrors [] p.node q.node := by
          rw [h.node, hnode]
          exact mirrors_shared (hnode ▸ hkind) known
        refine counted_fields h hnode hkind (hestree ▸ hother) hmirrors (hfields ?_) plain
          (rule?_of_shared known) known (sameBinder_refl kind) (fun _ _ => rfl) hsmaller
        exact fun hdirective => by subst hdirective; cases known
      | @renamed _ other known plain =>
        obtain ⟨hestree, hshared, hbinder, hasked, hdirective⟩ := renamed_facts known
        have hmirrors : Mirrors [] p.node q.node := by
          rw [h.node, hnode]
          exact mirrors_renamed (hnode ▸ hkind) known
        exact counted_fields h hnode hkind (hestree ▸ hother) hmirrors (hfields hdirective) plain
          (rule?_of_renamed known) hshared hbinder hasked hsmaller
      | property plain apart =>
        exact counted_property h hnode hkind (hnode ▸ apart) (hfields (by decide)) hsmaller
      | stringLiteral value leaf =>
        rw [harvest_translated_literal hnode hkind rfl (rule?_own rfl)
          (by rw [hnode, value]; rfl) (hnode ▸ leaf) h.node]
      | numericLiteral value leaf =>
        rw [harvest_translated_literal hnode hkind rfl (rule?_own rfl)
          (hnode ▸ scalar_of_number value) (hnode ▸ leaf) h.node]
      | booleanLiteral value leaf =>
        rw [harvest_boolean hnode hkind (hnode ▸ value) (hnode ▸ leaf) h.node]
      | nullLiteral leaf => rw [harvest_null hnode hkind (hnode ▸ leaf) h.node]
      | regExpLiteral hpattern hflags leaf =>
        rw [harvest_regExp hnode hkind (hnode ▸ hpattern) (hnode ▸ hflags) (hnode ▸ leaf) h.node]
      | bigIntLiteral value leaf =>
        rw [harvest_bigInt hnode hkind (hnode ▸ value) (hnode ▸ leaf) h.node]
      | privateName id hname only =>
        rw [harvest_privateName hnode hkind (hnode ▸ id) (hnode ▸ hname) (hnode ▸ only) h.node]
      | directive literal value leaf keys only =>
        rw [harvest_directive hnode hkind (hnode ▸ literal) (hnode ▸ value) (hnode ▸ leaf) keys
          (hnode ▸ only) h.node]
      | objectMethod method plain =>
        exact counted_objectMethod h hnode hkind (methodParts method) (hfields (by decide)) hsmaller
      | classMethod known method plain =>
        refine counted_classMethod h hnode hkind known (methodParts method) (hfields ?_) hsmaller
        exact fun hdirective => by subst hdirective; exact absurd known (by decide)
    | _ =>
      have hobject := isObject_of_isNode h.isNode
      rw [hnode] at hobject
      cases hobject

/-! ### Modules -/

/-- A node is translated at the place where it stands. -/
theorem get_loc_translate {kind : String} (hkind : (Document.object fields).kind? = some kind) :
    (translate (.object fields)).get "loc" = (Document.object fields).get "loc" := by
  have hside : lookup "loc" (translateFields fields) = lookup "loc" fields :=
    lookup_translateFields_side (by decide)
  have hbuild : ∀ (kind : String) (own : List (String × Document)) (keep : String → Bool),
      lookup "loc" own = none → keep "loc" →
      (build kind own ((translateFields fields).filter fun field => keep field.1)).get "loc" =
        (Document.object fields).get "loc" := by
    intro kind own keep hown hkeep
    rw [Document.get, field?_build (by decide), hown, Option.none_or, lookup_filter keep hkeep,
      hside]
    rfl
  rw [translate_object hkind]
  cases form kind with
  | kept =>
    rw [Form.apply, Document.get, field?, hside]
    rfl
  | renamed other => exact hbuild _ _ (fun key => !(["type"].contains key)) rfl rfl
  | property => exact hbuild _ _ (fun key => !(["type", "kind", "method"].contains key)) rfl rfl
  | _ => exact hbuild _ _ (fun key => nonChildKeys.contains key && key != "type") rfl rfl

/-- A node whose parent binds nothing has no name from a binding. -/
theorem bindingName?_of_parent {kind : String} (hkind : p.parent.kind? = some kind)
    (h : kind ∉ binderKinds ++ Placed.propertyKinds) : p.bindingName? = none := by
  have hkinds : kind ≠ "VariableDeclarator" ∧ kind ≠ "AssignmentExpression" ∧
      kind ≠ "AssignmentPattern" ∧ kind ∉ Placed.propertyKinds := by
    simpa [binderKinds, not_or, and_assoc] using h
  obtain ⟨hvariable, hassignment, hpattern, hproperty⟩ := hkinds
  unfold Placed.bindingName?
  rw [hkind]
  simp [hvariable, hassignment, hpattern, hproperty]

theorem kind?_set_loc (d value : Document) : (d.set "loc" value).kind? = d.kind? := by
  cases d with
  | object fields =>
    rw [Document.set, kind?, field?, lookup_assign, if_neg (by decide)]
    rfl
  | _ => rfl

theorem get_set_self {d : Document} (h : d.isObject) (key : String) (value : Document) :
    (d.set key value).get key = value := by
  cases d with
  | object fields => rw [Document.set, Document.get, field?, lookup_assign, if_pos rfl]; rfl
  | _ => cases h

/-- Where a node stands does not matter for its children. -/
theorem children_set_loc (d value : Document) (ignored : List String) :
    (d.set "loc" value).children ignored = d.children ignored := by
  cases d with
  | object fields =>
    rw [Document.set, Document.children, Document.children]
    induction fields with
    | nil => rfl
    | cons field rest ih =>
      obtain ⟨key, old⟩ := field
      rw [assign]
      split
      · rename_i hkey
        subst hkey
        rw [childrenIn, childrenIn, keep_false _ (by decide), if_neg Bool.false_ne_true,
          if_neg Bool.false_ne_true]
      · rw [childrenIn, childrenIn, ih]
  | _ => rfl

/-- A program counts the same as its translation, whatever holds it and whichever location it
is given. -/
theorem counted_program (hnode : p.node = .object fields) (hkind : p.node.kind? = some "Program")
    (hwell : wellFormed p.node) (value : Document)
    (hq : q.node = (translate p.node).set "loc" value) :
    counted (Estree.dialect.harvest s lines q) = counted (dialect.harvest s lines p) := by
  have hkind' : q.node.kind? = some "Program" := by
    rw [hq, kind?_set_loc, kind?_translate, hkind]
    rfl
  have hfields : wellFormedFields fields :=
    (shape_of_wellFormed (hnode ▸ hkind) (hnode ▸ hwell)).2 (by decide)
  have hshared : isShared "Program" := by decide
  have hrule' : Estree.dialect.rule? "Program" = some {} := rfl
  have hrule := (rule?_of_shared hshared).trans hrule'
  refine counted_harvest_mirrored (ruleFor_eq hkind hrule) (ruleFor_eq hkind' hrule') rfl rfl rfl ?_
    (fun form hform => by cases hform) fun lines c hc => ?_
  · intro ignored
    rw [hq, children_set_loc, hnode]
    exact (mirrors_shared (hnode ▸ hkind) (by decide)).children ignored
  · have hchild : wellFormed c.node ∧ c.node.isNode := by
      rw [hnode] at hc
      exact wellFormed_child hfields hc
    refine counted_harvest (counterparts_child hchild
      (under_of_not_asked hkind hkind' fun _ _ => rfl) ?_)
    -- Nothing is bound directly in a program, so the location of the program cannot matter for
    -- names.
    have hbinding : ∀ {p : Placed}, p.parent.kind? = some "Program" → p.bindingName? = none :=
      fun hparent => bindingName?_of_parent hparent (by decide)
    rw [hbinding (show ((translateChild c).placed q.node).parent.kind? = _ from hkind'),
      hbinding (show (c.placed p.node).parent.kind? = _ from hkind)]

/-- A file counts as its program does. -/
theorem harvest_file (hnode : p.node = .object fields) (hkind : p.node.kind? = some "File")
    (hkeys : listsKeys ["program"] fields) (honly : childKeysIn ["program"] p.node)
    (hprogram : (p.node.get "program").isNode) :
    dialect.harvest s lines p =
      dialect.harvest s lines (Child.placed p.node ⟨"program", true, p.node.get "program"⟩) := by
  have hchildren : p.node.children [] = [⟨"program", true, p.node.get "program"⟩] := by
    rw [children_of_only hnode hkeys (by decide) (eq_of_childKeysIn honly),
      childrenAt_of_isNode hprogram]
  rw [Dialect.harvest_single (ruleFor_eq hkind (rule?_own rfl)) rfl rfl hchildren]
  cases dialect.harvest s lines (Child.placed p.node ⟨"program", true, p.node.get "program"⟩) with
  | error e => rfl
  | ok y => exact congrArg Except.ok (Yield.empty_append y)

/-- A module and its translation have the same lines and count the same. -/
theorem counted_module {root : Document} (h : wellFormedRoot root) (s : Settings)
    (lines : Lines Int) :
    (translateRoot root).lines? = root.lines? ∧
    counted (Estree.dialect.harvest s lines
        { node := Estree.dialect.typedRoot (translateRoot root) }) =
      counted (dialect.harvest s lines { node := dialect.typedRoot root }) := by
  cases root with
  | object fields =>
    unfold wellFormedRoot at h
    unfold translateRoot
    dsimp only at h
    split at h
    -- A file stands for its program, which gets the place of the file.
    · rename_i hfile
      simp only [Bool.and_eq_true] at h
      obtain ⟨⟨⟨hkeys, honly⟩, hprogram⟩, hwell⟩ := h
      have hkind := kind?_of_kindIn hfile
      have hkind' := kind?_of_kindIn hprogram
      have hnode : (Document.object fields).isNode := by rw [isNode, hkind]; rfl
      have hinner : ((Document.object fields).get "program").isNode := by rw [isNode, hkind']; rfl
      have htyped : ((translate ((Document.object fields).get "program")).set "loc"
          ((Document.object fields).get "loc")).isNode := by
        rw [isNode, kind?_set_loc, ← isNode, isNode_translate, hinner]
      rw [if_pos hfile, Dialect.typedRoot, Dialect.typedRoot, if_pos htyped, if_pos hnode]
      refine ⟨lines?_eq ?_, ?_⟩
      · exact get_set_self ((isObject_translate _).trans (isObject_of_isNode hinner)) _ _
      · rw [harvest_file rfl hkind hkeys honly hinner]
        cases hcase : (Document.object fields).get "program" with
        | object inner => exact counted_program rfl (hcase ▸ hkind') (hcase ▸ hwell) _ rfl
        | _ => rw [hcase] at hkind'; cases hkind'
    · rename_i hfile
      rw [Bool.and_eq_true] at h
      obtain ⟨hnode, hwell⟩ := h
      have htranslated : (translate (.object fields)).isNode :=
        (isNode_translate _).trans hnode
      obtain ⟨kind, hkind⟩ := Option.isSome_iff_exists.mp hnode
      rw [if_neg hfile, Dialect.typedRoot, Dialect.typedRoot, if_pos htranslated, if_pos hnode]
      exact ⟨lines?_eq (get_loc_translate hkind),
        counted_harvest ⟨rfl, hwell, hnode, fun _ _ => rfl, rfl⟩⟩
  | _ => cases h

/-- A well-formed Babel module and its ESTree have the same walk, up to the order in which the
tokens of each scope are met. The walks find the same dependencies and problems, and they fail
together, with the same error. -/
theorem walk_matches_translation {root : Document} (h : wellFormedRoot root) (s : Settings) :
    Agree Walk.Matches (dialect.walk s root) (Estree.dialect.walk s (translateRoot root)) :=
  Dialect.walks_match (counted_module h s ⟨0, 0⟩).1.symm fun lines =>
    (counted_module h s lines).2.symm

end Babel

namespace Sample

/-- A function that returns a value, as the fields of a method with a key. -/
def methodFields (key value : Document) (params : List Document) : List (String × Document) :=
  [("key", key), ("params", .list params),
   ("body", node "BlockStatement" [("body", .list [node "ReturnStatement" [("argument", value)]])]),
   ("loc", location)]

/-- A private name. -/
def privateName (text : String) : Document :=
  node "PrivateName" [("id", name text)]

/-- An object with an accessor, a method and a property, and all that another one has. -/
def members : Document :=
  node "ObjectExpression" [("properties", .list
    [node "ObjectMethod" (("kind", .string "get") :: methodFields (name "size")
      (node "BigIntLiteral" [("value", .string "7")]) []),
     node "ObjectMethod" (("kind", .string "method") :: methodFields (name "run")
      (node "RegExpLiteral" [("pattern", .string "a+"), ("flags", .string "g")]) [name "x"]),
     node "ObjectProperty" [("key", name "label"), ("value", node "NullLiteral" [])],
     node "SpreadProperty" [("argument", name "other")]])]

/-- A class with a private field and a private method with a default parameter. -/
def hidden : Document :=
  node "ClassDeclaration" [("id", name "Hidden"), ("body", node "ClassBody" [("body", .list
    [node "ClassPrivateProperty"
      [("key", privateName "held"), ("value", node "NumericLiteral" [("value", .int 3)])],
     node "ClassPrivateMethod" (("kind", .string "method") :: ("static", .bool true) ::
      methodFields (privateName "go")
        (node "BooleanLiteral" [("value", .bool true)])
        [node "AssignmentPattern" [("left", name "y"),
          ("right", node "StringLiteral" [("value", .string "none")])]])])])]

/-- A file with a directive, the object and the class. -/
def file : Document :=
  node "File"
    [("program", node "Program"
      [("body", .list
        [node "VariableDeclaration" [("kind", .string "const"), ("declarations", .list
          [node "VariableDeclarator" [("id", name "object"), ("init", members)]])],
         hidden]),
       ("directives", .list [node "Directive"
        [("value", node "DirectiveLiteral" [("value", .string "use strict")])]])]),
     ("loc", location)]

end Sample

/-- Both walks of the file succeed. They see three functions and a class with one method, and
they count the same. The accessor adds its operators to the module in another order. -/
theorem walk_matches_translation_file :
    ∃ v w, Babel.dialect.walk {} Sample.file = .ok v ∧
      Estree.dialect.walk {} (Babel.translateRoot Sample.file) = .ok w ∧
      v.tree.functions.length = 3 ∧ v.tree.classes.map ClassScope.methods = [[3]] ∧
      v.tree.module.operators.identifiers.take 5 = ["const", "=", "{}", "function", "get"] ∧
      w.tree.module.operators.identifiers.take 5 = ["const", "=", "{}", "get", "function"] ∧
      Walk.Matches v w := by
  have hroot : Babel.wellFormedRoot Sample.file := by decide +kernel
  have hagree := Babel.walk_matches_translation hroot {}
  have hbabel : (Babel.dialect.walk {} Sample.file).toOption.map (fun v =>
      (v.tree.functions.length, v.tree.classes.map ClassScope.methods,
        v.tree.module.operators.identifiers.take 5)) =
      some (3, [[3]], ["const", "=", "{}", "function", "get"]) := by
    rw [Babel.dialect_eq]
    decide +kernel
  have hestree : (Estree.dialect.walk {} (Babel.translateRoot Sample.file)).toOption.map
      (fun w => w.tree.module.operators.identifiers.take 5) =
      some ["const", "=", "{}", "get", "function"] := by
    decide +kernel
  obtain ⟨v, hwalk, hseen⟩ := exists_ok_of_map_toOption hbabel
  obtain ⟨w, hwalk', htokens⟩ := exists_ok_of_map_toOption hestree
  rw [hwalk, hwalk'] at hagree
  obtain ⟨hfunctions, hclasses, hoperators⟩ :
      v.tree.functions.length = 3 ∧ v.tree.classes.map ClassScope.methods = [[3]] ∧
        v.tree.module.operators.identifiers.take 5 = ["const", "=", "{}", "function", "get"] := by
    simpa using hseen
  cases hagree with
  | ok hmatches =>
    exact ⟨v, w, hwalk, hwalk', hfunctions, hclasses, hoperators, htokens, hmatches⟩

end CodeMetrics
