import CodeMetrics.Proofs.Dialect.OptionalChain
import CodeMetrics.Proofs.Dialect.StatementCall

/-!
# `CodeMetrics.Proofs.Dialect.ChainAgreement`: how both dialects count optional chains

A tree with optional chains counts the same in both forms, scope by scope, but for one thing. A
call that is a statement counts no line of its own, because the statement counts one. The rules
look at the parent of the call for that. In an ESTree the parent of the last call of a chain is
the node around the chain, so such a call does count a line, and a Babel tree has it for free.

So an ESTree counts what the Babel rules with that line, `Babel.lined`, count in a Babel tree
(`walks_of_lined`). By the rules as they are, each scope of the ESTree counts one line more for
each chain in it that ends in a call and is a statement. That is the only difference
(`chains_count_as`).
-/

set_option autoImplicit false

namespace CodeMetrics

namespace Babel

open Document

variable {s : Settings} {lines : Lines Int} {p q : Placed}

/-! ### Places in both forms -/

/-- A place in a Babel tree and one in the ESTree form, which holds the node without the one around
a chain. What is asked of the parents is the same, but for links, which are no statements there. -/
structure Linked (p q : Placed) : Prop where
  node : q.node = chain true p.node
  chainable : chainable p.node
  isNode : p.node.isNode
  under : isLink p.node = false →
    ∀ kinds ∈ askedParents, q.parent.kindIn kinds = p.parent.kindIn kinds
  inside : isLink p.node → q.parent.kindIn ["ExpressionStatement"] = false

/-- The only child of the node around a chain is the last link. -/
theorem children_chainNode {link : Document} (h : link.isNode) :
    (chainNode link).children [] = [⟨"expression", true, link⟩] := by
  cases link with
  | object fields => simp [chainNode, Document.children, childrenIn, childrenAt, h, nonChildKeys]
  | _ => cases h

/-- The node around a chain adds nothing to what the chain yields. -/
theorem harvest_chainNode {link : Document} (h : link.isNode) (hnode : q.node = chainNode link) :
    Estree.dialect.harvest s lines q =
      Estree.dialect.harvest s lines ⟨link, q.node, some "expression"⟩ := by
  have hkind : q.node.kind? = some "ChainExpression" := by rw [hnode]; rfl
  have hchildren : q.node.children [] = [⟨"expression", true, link⟩] := by
    rw [hnode, children_chainNode h]
  rw [Dialect.harvest_single (ruleFor_eq hkind rfl) rfl rfl hchildren]
  show (do let y ← Estree.dialect.harvest s lines ⟨link, q.node, some "expression"⟩
           return Yield.only 0 ++ y) = _
  simp

/-- A node in the ESTree form yields what it yields without the node around a chain. -/
theorem exists_linked {inside : Bool} (hnode : q.node = chain inside p.node)
    (hchainable : chainable p.node) (hisNode : p.node.isNode)
    (hunder : ∀ kinds ∈ askedParents, q.parent.kindIn kinds = p.parent.kindIn kinds)
    (hinside : inside → q.parent.kindIn ["ExpressionStatement"] = false) :
    ∃ q', Linked p q' ∧ ∀ (s : Settings) (lines : Lines Int),
      Estree.dialect.harvest s lines q = Estree.dialect.harvest s lines q' := by
  cases hlink : isLink p.node with
  | true =>
    cases inside with
    | true =>
      refine ⟨q, ⟨hnode, hchainable, hisNode, fun h => ?_, fun _ => hinside rfl⟩, fun _ _ => rfl⟩
      rw [hlink] at h
      cases h
    | false =>
      -- The chain starts here, so the link hangs below the node around it.
      rw [chain_of_link hlink] at hnode
      refine ⟨⟨chain true p.node, q.node, some "expression"⟩,
        ⟨rfl, hchainable, hisNode, fun h => ?_, fun _ => ?_⟩, fun s lines => ?_⟩
      · rw [hlink] at h
        cases h
      · rw [hnode]
        rfl
      · exact harvest_chainNode ((isNode_chain true p.node).trans hisNode) hnode
  | false =>
    refine ⟨q, ⟨?_, hchainable, hisNode, fun _ => hunder, fun h => ?_⟩, fun _ _ => rfl⟩
    · cases hcase : p.node with
      | object fields =>
        rw [hcase] at hnode hlink
        rw [hnode, chain_of_not_link hlink, chain_of_not_link hlink]
      | _ => rw [hcase] at hisNode; cases hisNode
    · rw [hlink] at h
      cases h

/-- The parents of children are asked the same in both forms. -/
theorem kindIn_chain_asked (node : Document) :
    ∀ kinds ∈ askedParents, (chain true node).kindIn kinds = node.kindIn kinds := by
  have hasked : ∀ kinds ∈ askedParents,
      ∀ kind ∈ ["MemberExpression", "CallExpression", "ChainExpression"] ++ linkKinds,
        kind ∉ kinds := by decide
  exact fun kinds hkinds => kindIn_chain (hasked kinds hkinds) true node

theorem not_statement_of_isLink {node : Document} (h : isLink node) :
    (chain true node).kindIn ["ExpressionStatement"] = false := by
  obtain ⟨kind, hmem, hkind⟩ := kind?_of_isLink h true
  have hall : ∀ kind ∈ ["MemberExpression", "CallExpression", "ChainExpression"],
      ["ExpressionStatement"].contains kind = false := by decide
  rw [kindIn, hkind]
  exact hall kind hmem

/-- Each child of a node has its place in the other form. -/
theorem Linked.exists_child (h : Linked p q) {ignored : List String} {c : Child}
    (hc : c ∈ p.node.children ignored) :
    ∃ q', Linked (c.placed p.node) q' ∧ ∀ (s : Settings) (lines : Lines Int),
      Estree.dialect.harvest s lines ((chainChild (isLink p.node) c).placed q.node) =
        Estree.dialect.harvest s lines q' := by
  obtain ⟨hchainable, hisNode⟩ := everyNode_child h.chainable hc
  have hnode : ((chainChild (isLink p.node) c).placed q.node).node =
      chain (isLink p.node && chainKeys.contains c.key) (c.placed p.node).node := rfl
  refine exists_linked hnode hchainable hisNode ?_ fun hinside => ?_
  · show ∀ kinds ∈ askedParents, q.node.kindIn kinds = p.node.kindIn kinds
    rw [h.node]
    exact kindIn_chain_asked p.node
  · rw [Bool.and_eq_true] at hinside
    show q.node.kindIn ["ExpressionStatement"] = false
    rw [h.node]
    exact not_statement_of_isLink hinside.1

/-! ### Rules at both places -/

/-- A node has as many parameters in both forms. -/
theorem length_parameters_chain (node : Document) :
    (chain true node).parameters.length = node.parameters.length := by
  unfold Document.parameters
  rw [get_chain_inside (by decide)]
  cases hparams : node.get "params" with
  | list items => rw [chain, chainItems_eq_map, List.length_map]
  | object fields =>
    obtain ⟨fields', hfields⟩ :=
      exists_chain_object (isLink node && chainKeys.contains "params") fields
    rw [hfields]
  | _ => rfl

/-- A rule that asks the same of both parents reads the same in both forms. -/
theorem read_linked {asked : List (List String)} {rule : Rule}
    {fields : List (String × Document)} (h : Linked p q) (hnode : p.node = .object fields)
    (plain : plainFields fields) (hportable : portableRule asked rule)
    (hunder : ∀ kinds ∈ asked, q.parent.kindIn kinds = p.parent.kindIn kinds)
    (hscalar : ∀ value ∈ (rule.operators ++ rule.operands).flatMap (·.texts p.node),
      value.isCollection = false)
    (hplain : ∀ key ∈ (rule.operators ++ rule.operands).flatMap innerKeys,
      isPlain (p.node.get key)) :
    rule.read s q = rule.read s p := by
  have hlists : ∀ key ∈ listKeys, (p.node.get key).isObject = false := by
    rw [hnode]
    exact fun key hkey => isObject_of_listKeys plain hkey
  refine (placed_resembles h.node hlists hunder).read_eq hportable hscalar hplain fun form _ => ?_
  rw [h.node]
  exact (refersAlike_chain h.chainable (hlists _ (by decide))).read_eq form

/-- A node of a shared kind reads the same in both forms. -/
theorem read_shared {rule : Rule} {kind : String} {fields : List (String × Document)}
    (h : Linked p q) (hnode : p.node = .object fields) (plain : plainFields fields)
    (hkind : p.node.kind? = some kind) (known : isShared kind)
    (hrule : Estree.dialect.rule? kind = some rule) : rule.read s q = rule.read s p := by
  obtain ⟨rule', hrule', hmem⟩ := exists_rule known
  obtain rfl : rule' = rule := Option.some.inj (hrule'.symm.trans hrule)
  have hlink : isLink p.node = false :=
    isLink_of_isPlain (isPlain_of_shared hkind known)
  have hruleFor : dialect.ruleFor (.object fields) = some rule' :=
    ruleFor_eq (hnode ▸ hkind) ((rule?_of_shared known).trans hrule)
  refine read_linked h hnode plain (portable_rules _ hmem) (h.under hlink) (fun value hvalue => ?_)
    fun key hkey => ?_
  · refine scalar_of_texts plain (List.mem_append_right _ ?_)
    rw [hruleFor, ← hnode]
    exact hvalue
  · rw [hnode]
    exact isPlain_of_innerKeys hruleFor plain hkey

/-- A rule that reads no texts and asks nothing of the parent reads the same at a link. -/
theorem read_link {rule : Rule} {fields : List (String × Document)} (h : Linked p q)
    (hnode : p.node = .object fields) (plain : plainFields fields)
    (hportable : portableRule [] rule)
    (htexts : (rule.operators ++ rule.operands).flatMap (·.texts p.node) = [])
    (hkeys : (rule.operators ++ rule.operands).flatMap innerKeys = []) :
    rule.read s q = rule.read s p := by
  refine read_linked h hnode plain hportable (by simp) (fun value hvalue => ?_) fun key hkey => ?_
  · rw [htexts] at hvalue
    cases hvalue
  · rw [hkeys] at hkey
    cases hkey

/-- A call in a chain is no statement in the ESTree form, so it counts a line there. -/
theorem read_call {fields : List (String × Document)} (h : Linked p q) (hlink : isLink p.node)
    (hnode : p.node = .object fields) (plain : plainFields fields) :
    (callRule unlessStatement).read s q = (callRule (.fixed 1)).read s p := by
  rw [read_callRule_eq (h.inside hlink)]
  exact read_link h hnode plain (by decide) rfl rfl

/-! ### Whole trees -/

/-- The rules with a line for each optional call are those of an ESTree for all other kinds. -/
theorem rule?_lined {kind : String} (known : isShared kind) :
    lined.rule? kind = Estree.dialect.rule? kind := by
  refine (rule?_lined_of_ne fun hname => ?_).trans (rule?_of_shared known)
  exact not_isShared_of_link _ (by decide) (hname ▸ known)

/-- Each node is read by rules that open the same scopes and read the same. -/
theorem exists_rules (h : Linked p q) (s : Settings) :
    ∃ rule rule', lined.ruleFor p.node = some rule ∧ Estree.dialect.ruleFor q.node = some rule' ∧
      rule'.opens = rule.opens ∧ rule'.scopeKeys = rule.scopeKeys ∧
      rule'.read s q = rule.read s p := by
  obtain ⟨kind, hkind⟩ := Option.isSome_iff_exists.mp h.isNode
  have hkind' : q.node.kind? = some (linkKind kind) := by
    rw [h.node, kind?_chain_inside, hkind, Option.map_some]
  cases hnode : p.node with
  | object fields =>
    rw [← hnode]
    obtain ⟨hknown, plain⟩ := usual_of_chainable (hnode ▸ h.chainable) (hnode ▸ hkind)
    rcases hknown with known | hmem
    · obtain ⟨rule, hrule, -⟩ := exists_rule known
      have hlinkKind : linkKind kind = kind :=
        linkKind_of_not_mem fun hmem => not_isShared_of_link kind hmem known
      rw [hlinkKind] at hkind'
      exact ⟨rule, rule, ruleFor_eq hkind ((rule?_lined known).trans hrule),
        ruleFor_eq hkind' hrule, rfl, rfl, read_shared h hnode plain hkind known hrule⟩
    · have hlink : isLink p.node := by rw [isLink_eq hkind]; simpa using hmem
      simp only [linkKinds, List.mem_cons, List.not_mem_nil, or_false] at hmem
      -- Members have the same rule under both names, and calls are read as at no statement.
      rcases hmem with rfl | rfl
      · have hown : dialect.rule? "OptionalMemberExpression" =
            some { operators := [Estree.memberToken] } := rule?_own rfl
        have hmember := (rule?_lined_of_ne (by decide)).trans hown
        exact ⟨_, _, ruleFor_eq hkind hmember, ruleFor_eq hkind' rfl, rfl, rfl,
          read_link h hnode plain (by decide) rfl rfl⟩
      · exact ⟨_, _, ruleFor_eq hkind rule?_lined_call, ruleFor_eq hkind' rfl, rfl, rfl,
          read_call h hlink hnode plain⟩
  | _ =>
    have hobject := isObject_of_isNode h.isNode
    rw [hnode] at hobject
    cases hobject

/-- A tree yields alike in both forms. -/
theorem like_harvest_linked (h : Linked p q) :
    Agree (Yield.Like Eq) (lined.harvest s lines p) (Estree.dialect.harvest s lines q) := by
  induction hsize : p.node.size using Nat.strongRecOn generalizing p q lines with
  | ind size ih =>
    have hbelow : ∀ lines ignored, ∀ c ∈ p.node.children ignored,
        Agree (Yield.Like Eq) (lined.harvest s lines (c.placed p.node))
          (Estree.dialect.harvest s lines ((chainChild (isLink p.node) c).placed q.node)) := by
      -- A link inside of a chain stands alone in the one form and under the chain in the other, so
      -- the counterpart of a child is found by `exists_child`.
      intro lines ignored c hc
      obtain ⟨q', hlinked, hharvest⟩ := h.exists_child hc
      rw [hharvest]
      exact ih _ (hsize ▸ size_lt_of_mem_children hc) hlinked rfl
    obtain ⟨rule, rule', hrule, hrule', hopens, hkeys, hread⟩ := exists_rules h s
    have hlike : Agree (Contribution.Like Eq) (rule.read s p) (rule'.read s q) := by
      rw [hread]
      exact (Agree.refl _).imp fun c c' hcc => hcc ▸ ⟨rfl, rfl, rfl⟩
    refine Dialect.like_harvest ScopeCounts.compatible_eq hrule hrule' hopens hkeys hlike
      (lines?_eq ?_) ?_ (chainChild (isLink p.node)) (fun _ => rfl) (fun ignored => ?_) hbelow
    · rw [h.node, get_loc_chain]
    · rw [h.node, length_parameters_chain]
    · rw [h.node, children_chain]

/-- Giving a kind to fields that has nothing to do with chains goes along with their form. -/
theorem chainFields_assign_type {kind : String} (h : kind ∉ linkKinds) (link : Bool)
    (fields : List (String × Document)) :
    chainFields link (assign "type" (.string kind) fields) =
      assign "type" (.string kind) (chainFields link fields) := by
  have hretyped : retyped (.string kind) = .string kind := by
    rw [retyped, linkKind_of_not_mem h]
  induction fields with
  | nil =>
    show chainFields link [("type", .string kind)] = [("type", .string kind)]
    rw [chainFields, if_pos rfl, hretyped, chainFields]
  | cons field rest ih =>
    obtain ⟨name, d⟩ := field
    rw [assign, chainFields, assign]
    by_cases hname : name = "type"
    · rw [if_pos hname, if_pos hname, chainFields, if_pos rfl, hretyped]
    · rw [if_neg hname, if_neg hname, chainFields, ih]

/-- A root that is taken for a module is one in both forms. -/
theorem typedRoot_chained {root : Document} (hobject : root.isObject) :
    (dialect.typedRoot root).isNode ∧
      Estree.dialect.typedRoot (chained root) = chained (dialect.typedRoot root) := by
  unfold Dialect.typedRoot chained
  cases hnode : root.isNode with
  | true => simp [isNode_chain, hnode]
  | false =>
    -- A link has a kind, so a root without one is no link, and neither is it as a program.
    have hlink : isLink root = false := by
      rw [Bool.eq_false_iff]
      intro hlink
      rw [isNode_of_isLink hlink] at hnode
      cases hnode
    simp only [isNode_chain, hnode, Bool.false_eq_true, if_false]
    cases root with
    | object fields =>
      have hkind : (Document.object (assign "type" (.string "Program") fields)).kind? =
          some "Program" := by
        rw [kind?, field?, lookup_assign, if_pos rfl]
      have hlink' : isLink (.object (assign "type" (.string "Program") fields)) = false := by
        rw [isLink_eq hkind]
        rfl
      refine ⟨?_, ?_⟩
      · show (Document.object (assign "type" (.string "Program") fields)).isNode
        rw [isNode, hkind]
        rfl
      · rw [chain_of_not_link hlink]
        show Document.object (assign "type" (.string "Program") (chainFields false fields)) =
          chain false (.object (assign "type" (.string "Program") fields))
        rw [chain_of_not_link hlink', chainFields_assign_type (by decide)]
    | _ => cases hobject

/-- With a line for each optional call, a Babel module counts what its ESTree form counts. -/
theorem walks_of_lined {root : Document} (hroot : chainable (dialect.typedRoot root))
    (s : Settings) :
    Agree (Walk.CountsAs Eq) (lined.walk s root) (Estree.dialect.walk s (chained root)) := by
  refine Dialect.walks_count_as ScopeCounts.compatible_eq (lines?_eq (get_loc_chain false root))
    fun lines hlines => ?_
  -- Only objects have lines.
  have hobject : root.isObject := by
    cases root with
    | object fields => rfl
    | _ => cases hlines
  obtain ⟨hnode, htyped⟩ := typedRoot_chained hobject
  obtain ⟨q, hlinked, hharvest⟩ := exists_linked (p := { node := dialect.typedRoot root })
    (q := { node := chained (dialect.typedRoot root) }) rfl hroot hnode (fun _ _ => rfl) (by simp)
  rw [typedRoot_lined, htyped, hharvest]
  exact like_harvest_linked hlinked

/-- A Babel module with optional chains and its ESTree form have walks with the same modules,
functions and classes, the same dependencies and problems, and the same numbers but for logical
lines. The module of the ESTree counts one line more for each chain that ends in a call and is a
statement, and a function one for each that it owns. So all numbers are the same exactly if there
are no such chains. -/
theorem chains_count_as {root : Document} (hroot : chainable (dialect.typedRoot root))
    (s : Settings) :
    Agree (fun v w => Walk.CountsAs ScopeCounts.MoreLines v w ∧
      w.tree.module.logical = v.tree.module.logical + (statementCalls s root).length ∧
      (∀ (k : Nat) (o : Occurrence), ((dialect.journal s root).opened .function)[k]? = some o →
        ∃ f g, v.tree.functions[k]? = some f ∧ w.tree.functions[k]? = some g ∧
          g.logical = f.logical +
            ((statementCalls s root).filter (·.ownedBy dialect .function o)).length) ∧
      (Walk.CountsAs Eq v w ↔ statementCalls s root = []))
    (dialect.walk s root) (Estree.dialect.walk s (chained root)) := by
  refine ((walks_lined s root).trans (walks_of_lined hroot s)).imp ?_
  rintro v w ⟨u, ⟨hmore, hmodule, hfunctions, hsame⟩, hcounts⟩
  have hlines : w.tree.module.logical = u.tree.module.logical :=
    (congrArg ScopeCounts.logical hcounts.module.counts).symm
  refine ⟨hmore.trans_eq hcounts, hlines.trans hmodule, fun k o hk => ?_, fun heq => ?_,
    fun hnone => ?_⟩
  · obtain ⟨f, g, hf, hg, hlogical⟩ := hfunctions k o hk
    obtain ⟨g', hg', hcountsAs⟩ := exists_of_forall₂ hcounts.functions hg
    refine ⟨f, g', hf, hg', ?_⟩
    rw [← hlogical]
    exact (congrArg ScopeCounts.logical hcountsAs.counts).symm
  · -- Such a chain would be seen in the module.
    have hlogical : v.tree.module.logical = w.tree.module.logical :=
      congrArg ScopeCounts.logical heq.module.counts
    refine List.length_eq_zero_iff.mp ?_
    omega
  · rw [← hsame hnone]
    exact hcounts

end Babel

/-! ### Modules with chains -/

namespace Sample

/-- A member of what comes before in a chain. -/
def optionalMember (object property : Document) (optional computed : Bool) : Document :=
  node "OptionalMemberExpression"
    [("object", object), ("property", property), ("computed", .bool computed),
     ("optional", .bool optional)]

/-- A call of what comes before in a chain. -/
def optionalCall (callee : Document) (arguments : List Document) (optional : Bool) : Document :=
  node "OptionalCallExpression"
    [("callee", callee), ("arguments", .list arguments), ("optional", .bool optional)]

/-- An expression as a statement. -/
def statement (expression : Document) : Document :=
  node "ExpressionStatement" [("expression", expression)]

/-- The chain `ping?.()`. -/
def ping : Document := optionalCall (name "ping") [] true

/-- The chain `store?.entries(x)?.[x].name`, in which members and calls take turns. -/
def longChain : Document :=
  optionalMember
    (optionalMember
      (optionalCall (optionalMember (name "store") (name "entries") true false) [name "x"] false)
      (name "x") true true)
    (name "name") false false

/-- A module without a kind. A function in it calls a chain and returns the long one. Around it are
a member of a chain that has ended before and a chain that ends in a call. -/
def reader : Document :=
  .object
    [("body", .list
      [node "VariableDeclaration" [("kind", .string "const"), ("declarations", .list
        [node "VariableDeclarator" [("id", name "read"), ("init", function [name "x"]
          [statement ping, node "ReturnStatement" [("argument", longChain)]])]])],
       statement (node "MemberExpression"
        [("object", optionalCall (name "load") [] true), ("property", name "size")]),
       statement (optionalCall (optionalMember (name "log") (name "flush") true false) [] false)]),
     ("loc", location)]

/-- A module with an expression as its only statement. -/
def single (expression : Document) : Document :=
  node "Program" [("body", .list [statement expression]), ("loc", location)]

end Sample

/-- Both walks of the module with the long chain succeed. Two chains are statements that end in a
call, one of them in the function. So the ESTree counts two lines more for the module and one more
for the function, and the numbers are not the same. -/
theorem chains_count_as_reader :
    Babel.chainable (Babel.dialect.typedRoot Sample.reader) ∧
    ∃ v w f g, Babel.dialect.walk {} Sample.reader = .ok v ∧
      Estree.dialect.walk {} (Babel.chained Sample.reader) = .ok w ∧
      v.tree.functions[0]? = some f ∧ w.tree.functions[0]? = some g ∧
      v.tree.module.logical = 8 ∧ w.tree.module.logical = 10 ∧ f.logical = 3 ∧ g.logical = 4 ∧
      f.operators.identifiers = ["?.()", "return", ".", "?[]", "()", "?."] ∧
      Walk.CountsAs ScopeCounts.MoreLines v w ∧ ¬ Walk.CountsAs Eq v w := by
  have hroot : Babel.chainable (Babel.dialect.typedRoot Sample.reader) := by decide +kernel
  have hagree := Babel.chains_count_as hroot {}
  -- Only the walk of Babel is evaluated. What the ESTree counts follows from the theorem.
  have hbabel : (Babel.dialect.walk {} Sample.reader).toOption.map (fun v =>
      (v.tree.module.logical, v.tree.functions[0]?.map fun f =>
        (f.logical, f.operators.identifiers))) =
      some (8, some (3, ["?.()", "return", ".", "?[]", "()", "?."])) := by
    rw [Babel.dialect_eq]
    decide +kernel
  have hcalls : (Babel.statementCalls {} Sample.reader).length = 2 := by
    rw [Babel.statementCalls, Babel.dialect_eq]
    decide +kernel
  have hinside : ((Babel.dialect.journal {} Sample.reader).opened .function)[0]?.map (fun o =>
      ((Babel.statementCalls {} Sample.reader).filter
        (·.ownedBy Babel.dialect .function o)).length) = some 1 := by
    rw [Babel.statementCalls, Babel.dialect_eq]
    decide +kernel
  obtain ⟨v, hv, hseen⟩ := exists_ok_of_map_toOption hbabel
  rw [hv] at hagree ⊢
  obtain ⟨hlines, hfunction⟩ := Prod.mk.inj hseen
  obtain ⟨o, ho, howned⟩ := Option.map_eq_some_iff.mp hinside
  cases hwalk : Estree.dialect.walk {} (Babel.chained Sample.reader) with
  | error e =>
    rw [hwalk] at hagree
    cases hagree
  | ok w =>
    rw [hwalk] at hagree
    cases hagree with
    | ok hcounts =>
      obtain ⟨hmore, hmodule, hfunctions, hsame⟩ := hcounts
      obtain ⟨f, g, hf, hg, hlogical⟩ := hfunctions 0 o ho
      rw [hf, Option.map_some] at hfunction
      obtain ⟨hown, htokens⟩ := Prod.mk.inj (Option.some.inj hfunction)
      refine ⟨hroot, v, w, f, g, rfl, rfl, hf, hg, hlines, ?_, hown, ?_, htokens, hmore,
        fun heq => ?_⟩
      · rw [hmodule, hlines, hcalls]
        rfl
      · rw [hlogical, hown, howned]
        rfl
      · rw [hsame.mp heq] at hcalls
        cases hcalls

/-- A chain that ends in a call and is a statement counts two lines in an ESTree. The same
statement counts one line in a Babel tree, and so does the call without the chain in an ESTree. -/
theorem chained_call_statement_counts_two :
    (Estree.dialect.walk {} (Babel.chained (Sample.single Sample.ping))).toOption.map
      (fun w => w.tree.module.logical) = some 2 ∧
    (Babel.dialect.walk {} (Sample.single Sample.ping)).toOption.map
      (fun w => w.tree.module.logical) = some 1 ∧
    (Estree.dialect.walk {} (Sample.single (Babel.chain true Sample.ping))).toOption.map
      (fun w => w.tree.module.logical) = some 1 := by
  rw [Babel.dialect_eq]
  decide +kernel

end CodeMetrics
