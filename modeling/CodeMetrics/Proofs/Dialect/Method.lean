import CodeMetrics.Proofs.Dialect.RebuiltNode

/-!
# `CodeMetrics.Proofs.Dialect.Method`: methods as members that hold functions

A Babel method is one node. In an ESTree it is two, a member with the key and a function with
the rest. The method adds its tokens before its key is visited, the function adds its own
after that, so the tokens come in another order. The lines of the two nodes add up to those of
the method, and the function takes its name from the key of the member, as the method does
(`counted_method`).
-/

set_option autoImplicit false

namespace CodeMetrics.Babel

open Document

variable {fields : List (String × Document)} {s : Settings} {lines : Lines Int} {p q : Placed}

/-! ### What methods and members read -/

/-- A text that counts if a field is set. -/
def textIf (node : Document) (key text : String) : List String :=
  if (node.get key).truthy then [text] else []

/-- The tokens of a function. -/
def functionTexts (node : Document) : List String :=
  textIf node "async" "async" ++
    [if (node.get "generator").truthy then "function" ++ "*" else "function"]

/-- The keyword of an accessor. -/
def accessorTexts (node : Document) : List String :=
  if isAccessor node then (node.get "kind").identifiers else []

theorem read_when (key text : String) :
    (Token.when (.truthy key) text).read s p = .ok (textIf p.node key text) := by
  rw [Token.when, Token.read, Condition.holds, textIf]
  cases (p.node.get key).truthy <;> rfl

theorem read_accessor :
    (Token.choose Estree.isAccessor (.field "kind") .nothing).read s p =
      .ok (accessorTexts p.node) := by
  rw [Token.read, Estree.isAccessor, Condition.holds, accessorTexts, isAccessor]
  cases (p.node.get "kind").isOneOf ["get", "set"] <;> rfl

theorem read_functionKeyword :
    (Estree.functionKeyword "function").read s p =
      .ok [if (p.node.get "generator").truthy then "function" ++ "*" else "function"] := by
  rw [Estree.functionKeyword, Token.read, Condition.holds]
  cases (p.node.get "generator").truthy <;> rfl

/-- What a node adds that is not an operand and has no dependency. -/
def operation (lloc : Int) (operators : List String) : Contribution :=
  { lloc, cyclomatic := 0, operators, operands := [], dependency := none, ignored := [] }

theorem read_functionRule :
    Estree.functionRule.read s p = .ok (operation 1 (functionTexts p.node)) := by
  simp only [Rule.read, Estree.functionRule, Estree.functionTokens, Token.readAll, read_when,
    read_functionKeyword]
  rfl

theorem read_methodDefinition {rule : Rule}
    (hrule : Estree.dialect.rule? "MethodDefinition" = some rule) :
    rule.read s p =
      .ok (operation 0 (textIf p.node "static" "static" ++ accessorTexts p.node)) := by
  cases hrule
  simp only [Rule.read, Token.readAll, read_when, read_accessor]
  show Except.ok (operation 0 (_ ++ (_ ++ []))) = _
  rw [List.append_nil]

/-- The number of lines that an entry of an object literal adds. -/
def entryLines (parent : Document) : Int :=
  if parent.kindIn ["ObjectExpression", "RecordExpression"] then 1 else 0

/-- A property that stands for a method has an accessor keyword or is marked as a method. -/
theorem read_methodProperty {rule : Rule} (hrule : Estree.dialect.rule? "Property" = some rule)
    {node : Document}
    (hkind : q.node.get "kind" = if isAccessor node then node.get "kind" else .string "init")
    (hmethod : q.node.get "method" = .bool !(isAccessor node))
    (hshort : q.node.get "shorthand" = .bool false) :
    rule.read s q = .ok (operation (entryLines q.parent) (accessorTexts node)) := by
  cases hrule
  have htoken : Estree.propertyToken.read s q = .ok (accessorTexts node) := by
    unfold accessorTexts
    cases haccessor : isAccessor node with
    | true =>
      have hone : (node.get "kind").isOneOf ["get", "set"] = true := haccessor
      rw [haccessor, if_pos rfl] at hkind
      rw [Estree.propertyToken, Token.read, Estree.isAccessor, Condition.holds, hkind]
      show (if (node.get "kind").isOneOf ["get", "set"] then
        Except.ok (q.node.get "kind").identifiers else _) = _
      rw [hkind, if_pos hone, if_pos rfl]
    | false =>
      rw [haccessor, if_neg Bool.false_ne_true] at hkind
      rw [haccessor] at hmethod
      simp only [Estree.propertyToken, Token.read, Estree.isAccessor, Condition.holds, hkind,
        hmethod]
      rfl
  simp only [Rule.read, Token.readAll, htoken, Count.read, Skip.read, Condition.holds, hshort,
    Estree.isObjectEntry, entryLines]
  show Except.ok (operation _ (_ ++ [])) = _
  rw [List.append_nil]

theorem read_classMethod :
    (methodRule (.fixed 1) [staticToken]).read s p =
      .ok (operation (0 + 1) (textIf p.node "static" "static" ++
        (functionTexts p.node ++ accessorTexts p.node))) := by
  simp only [Rule.read, methodRule, staticToken, Estree.functionTokens, List.cons_append,
    List.nil_append, Token.readAll, read_when, read_functionKeyword, read_accessor]
  show Except.ok (operation 1 (_ ++ (_ ++ (_ ++ (_ ++ []))))) = _
  rw [List.append_nil, functionTexts, List.append_assoc]
  rfl

theorem read_objectMethod :
    (methodRule (.choose Estree.isObjectEntry 2 1) []).read s p =
      .ok (operation (entryLines p.parent + 1) (functionTexts p.node ++ accessorTexts p.node)) := by
  simp only [Rule.read, methodRule, Estree.functionTokens, List.cons_append,
    List.nil_append, Token.readAll, read_when, read_functionKeyword, read_accessor, Count.read,
    Condition.holds, Estree.isObjectEntry]
  show Except.ok (operation (if _ then 2 else 1) (_ ++ (_ ++ (_ ++ [])))) = _
  rw [List.append_nil, functionTexts, List.append_assoc, entryLines]
  cases p.parent.kindIn ["ObjectExpression", "RecordExpression"] <;> rfl

/-- A child under a key that binds nothing has no name from a binding. -/
theorem bindingName?_placed {c : Child} (h : c.node.isNode) (hkey : c.key ∉ Placed.bindingSlots)
    (parent : Document) : (c.placed parent).bindingName? = none := by
  refine Placed.bindingName?_of_slot (isObject_of_isNode h) fun key hmem hslot => ?_
  unfold Child.placed at hslot
  split at hslot
  · exact hkey (Option.some.inj hslot ▸ hmem)
  · cases hslot

/-- A child under a key that binds nothing, below nodes that no rule asks about. -/
theorem counterparts_of_key {a b : Document} {kind other : String} {c : Child}
    (hc : wellFormed c.node ∧ c.node.isNode) (hkey : c.key ∉ Placed.bindingSlots)
    (hkind : a.kind? = some kind) (hother : b.kind? = some other)
    (hasked : ∀ kinds ∈ askedParents, kinds.contains other = kinds.contains kind) :
    Counterparts (c.placed a) ((translateChild c).placed b) := by
  refine counterparts_child hc (under_of_not_asked hkind hother hasked) ?_
  have htranslated : (translateChild c).node.isNode := (isNode_translate c.node).trans hc.2
  rw [bindingName?_placed htranslated hkey, bindingName?_placed hc.2 hkey]

/-! ### The yield of a method -/

theorem map_operation (lloc : Int) (operators : List String) :
    (Yield.ofContribution s (operation lloc operators)).map Gain.countsHom =
      .only (Gain.counts { lines := lloc, operators }) := by
  ext1 <;> rfl

/-- The children of a method: those of its key, of its parameters and of its body. -/
structure MethodParts (fields : List (String × Document)) : Prop where
  outside : ((Document.object fields).children []).filter (fun c => ["key", "params"].contains c.key) =
    childrenAt "key" ((Document.object fields).get "key") ++
      childrenAt "params" ((Document.object fields).get "params")
  inside : ((Document.object fields).children []).filter
      (fun c => !(["key", "params"].contains c.key)) =
    childrenAt "body" ((Document.object fields).get "body")
  only : ∀ c ∈ (Document.object fields).children [], c.key ∈ ["key", "params", "body"]

theorem methodParts (h : methodFields fields) : MethodParts fields := by
  simp only [methodFields, Bool.and_eq_true, childKeysIn, List.all_eq_true,
    List.contains_iff_mem] at h
  obtain ⟨⟨houtside, hbody⟩, honly⟩ := h
  refine ⟨?_, ?_, honly⟩
  · rw [children_of_listsKeys houtside (by decide) (by decide)]
    simp
  · have hinside : ∀ c ∈ (Document.object fields).children [],
        (!(["key", "params"].contains c.key)) = ["body"].contains c.key := by
      have hall : ∀ key ∈ ["key", "params", "body"],
          (!(["key", "params"].contains key)) = ["body"].contains key := by decide
      exact fun c hc => hall c.key (honly c hc)
    rw [List.filter_congr hinside, children_of_listsKeys hbody (by decide) (by decide)]
    simp

/-- Nothing hangs under any other key of a method. -/
theorem MethodParts.childrenAt_eq_nil (h : MethodParts fields) (key : String)
    (hopen : key ∉ nonChildKeys) (hkey : key ∉ ["key", "params", "body"]) :
    childrenAt key ((Document.object (translateFields fields)).get key) = [] := by
  rw [get_translateFields hopen, childrenAt_translate,
    childrenAt_get_eq_nil hopen fun c hc heq => hkey (heq ▸ h.only c hc), List.map_nil]

theorem childrenAt_translateFields {key : String} (hopen : key ∉ nonChildKeys) :
    childrenAt key ((Document.object (translateFields fields)).get key) =
      (childrenAt key ((Document.object fields).get key)).map translateChild := by
  rw [get_translateFields hopen, childrenAt_translate]

/-- The children of the function that a method stands for. -/
theorem children_methodFunction (h : MethodParts fields) :
    (methodFunction (.object (translateFields fields))).children [] =
      (childrenAt "params" ((Document.object fields).get "params")).map translateChild ++
        (childrenAt "body" ((Document.object fields).get "body")).map translateChild := by
  show childrenAt "id" .null ++ (childrenAt "params" _ ++ (childrenAt "body" _ ++
    (childrenAt "async" _ ++ (childrenAt "generator" _ ++ [])))) = _
  rw [h.childrenAt_eq_nil "async" (by decide) (by decide),
    h.childrenAt_eq_nil "generator" (by decide) (by decide),
    childrenAt_translateFields (by decide), childrenAt_translateFields (by decide)]
  simp [childrenAt]

/-- The yield of a method: the node, its key, its parameters, and its body in a function. -/
theorem harvest_method {kind : String} {lloc : Count} {first : List Token} {c : Contribution}
    (hnode : p.node = .object fields) (hparts : MethodParts fields)
    (hkind : p.node.kind? = some kind) (hrule : dialect.rule? kind = some (methodRule lloc first))
    (hread : (methodRule lloc first).read s p = .ok c) (hignored : c.ignored = []) :
    dialect.harvest s lines p = (do
      let k ← dialect.harvestAll s lines p.node (childrenAt "key" (p.node.get "key"))
      let m ← dialect.harvestAll s lines p.node (childrenAt "params" (p.node.get "params"))
      let l ← p.node.lines?.mapError .fault
      let i ← dialect.harvestAll s (l.getD lines) p.node (childrenAt "body" (p.node.get "body"))
      return .ofContribution s c ++ ((k ++ m) ++
        i.enclose Gain.ofFunction .function (methodRule lloc first) p (l.getD lines))) := by
  rw [Dialect.harvest]
  simp only [ruleFor_eq hkind hrule, hread]
  show (do
    let o ← dialect.harvestAll s lines p.node ((p.node.children c.ignored).filter fun child =>
      ["key", "params"].contains child.key)
    let l ← p.node.lines?.mapError .fault
    let i ← dialect.harvestAll s (l.getD lines) p.node
      ((p.node.children c.ignored).filter fun child => !(["key", "params"].contains child.key))
    return Yield.ofContribution s c ++ (o ++
      i.enclose Gain.ofFunction .function (methodRule lloc first) p (l.getD lines))) = _
  rw [hignored, hnode, hparts.outside, hparts.inside, ← hnode, Dialect.harvestAll_append]
  simp only [bind_assoc, pure_bind]

/-- The yield of the function that a method stands for. -/
theorem harvest_methodFunction (hparts : MethodParts fields)
    (hq : q.node = methodFunction (.object (translateFields fields))) :
    Estree.dialect.harvest s lines q = (do
      let m ← Estree.dialect.harvestAll s lines q.node
        ((childrenAt "params" ((Document.object fields).get "params")).map translateChild)
      let l ← q.node.lines?.mapError .fault
      let i ← Estree.dialect.harvestAll s (l.getD lines) q.node
        ((childrenAt "body" ((Document.object fields).get "body")).map translateChild)
      return .ofContribution s (operation 1 (functionTexts q.node)) ++
        (m ++ i.enclose Gain.ofFunction .function Estree.functionRule q (l.getD lines))) := by
  have hkey : ∀ {key value c}, c ∈ (childrenAt key value).map translateChild → c.key = key := by
    intro key value c hc
    obtain ⟨child, hchild, rfl⟩ := List.mem_map.mp hc
    show child.key = key
    exact key_of_mem_childrenAt hchild
  have hchildren := children_methodFunction hparts
  rw [← hq] at hchildren
  -- A function visits its `id` and its parameters outside of its scope, and the body is all that is
  -- left.
  have houtside : (q.node.children []).filter (fun c => ["id", "params"].contains c.key) =
      (childrenAt "params" ((Document.object fields).get "params")).map translateChild := by
    rw [hchildren, List.filter_append, List.filter_eq_self.mpr, List.filter_eq_nil_iff.mpr,
      List.append_nil]
    · exact fun c hc => by rw [hkey hc]; decide
    · exact fun c hc => by rw [hkey hc]; rfl
  have hinside : (q.node.children []).filter (fun c => !(["id", "params"].contains c.key)) =
      (childrenAt "body" ((Document.object fields).get "body")).map translateChild := by
    rw [hchildren, List.filter_append, List.filter_eq_nil_iff.mpr, List.filter_eq_self.mpr,
      List.nil_append]
    · exact fun c hc => by rw [hkey hc]; rfl
    · exact fun c hc => by rw [hkey hc]; decide
  have hrule : Estree.dialect.ruleFor q.node = some Estree.functionRule :=
    ruleFor_eq (by rw [hq]; rfl) rfl
  rw [Dialect.harvest]
  simp only [hrule, read_functionRule]
  show (do
    let o ← Estree.dialect.harvestAll s lines q.node ((q.node.children []).filter fun child =>
      ["id", "params"].contains child.key)
    let l ← q.node.lines?.mapError .fault
    let i ← Estree.dialect.harvestAll s (l.getD lines) q.node
      ((q.node.children []).filter fun child => !(["id", "params"].contains child.key))
    return Yield.ofContribution s (operation 1 (functionTexts q.node)) ++ (o ++
      i.enclose Gain.ofFunction .function Estree.functionRule q (l.getD lines))) = _
  rw [houtside, hinside]

/-- The node that stands for a method: a member with the key and the function of the method. -/
structure IsMember (q : Placed) (kind : String) (fields : List (String × Document)) : Prop where
  kind_eq : q.node.kind? = some kind
  key : q.node.get "key" = translate ((Document.object fields).get "key")
  computed : q.node.get "computed" = translate ((Document.object fields).get "computed")
  children : q.node.children [] =
    (childrenAt "key" ((Document.object fields).get "key")).map translateChild ++
      [⟨"value", true, methodFunction (.object (translateFields fields))⟩]

/-- A method is named by its key, and the function that it stands for by its binding. -/
theorem functionName?_member {kind : String} (hmember : IsMember q kind fields)
    (hproperty : kind ∈ ["Property", "MethodDefinition"]) (hnode : p.node = .object fields)
    (hwell : wellFormed (p.node.get "key")) :
    (Child.placed q.node
      ⟨"value", true, methodFunction (.object (translateFields fields))⟩).functionName? =
      p.methodName? := by
  have hbinders : ∀ kind ∈ ["Property", "MethodDefinition"], kind ≠ "VariableDeclarator" ∧
      kind ≠ "AssignmentExpression" ∧ kind ≠ "AssignmentPattern" ∧
      Placed.propertyKinds.contains kind := by decide
  -- Of the parents that name what they bind, only a property is left.
  obtain ⟨hvariable, hassignment, hpattern, hcontains⟩ := hbinders kind hproperty
  have hunnamed : ((Child.placed q.node
      ⟨"value", true, methodFunction (.object (translateFields fields))⟩).node.get "id").name? =
      none := by
    refine name?_eq_none ?_
    simp [Child.placed, methodFunction, Document.get, kind?, field?, lookup]
  have hkind : (Child.placed q.node
      ⟨"value", true, methodFunction (.object (translateFields fields))⟩).parent.kind? = some kind :=
    hmember.kind_eq
  unfold Placed.functionName? Placed.methodName? Placed.bindingName?
  rw [hunnamed, hkind]
  simp only [hvariable, hassignment, hpattern, false_and, if_false, hcontains, true_and]
  rw [Placed.isUnder_eq rfl, if_pos (by rfl)]
  show (if (q.node.get "computed").truthy then none else (q.node.get "key").name?) = _
  rw [hmember.computed, hmember.key, truthy_translate, ← hnode, name?_translate hwell]

/-- The counts of two yields of single nodes can be brought together. -/
theorem only_append_only (g h : ScopeCounts) (k y : Yield ScopeCounts) :
    Yield.only g ++ (k ++ (Yield.only h ++ y)) = Yield.only (g + h) ++ (k ++ y) := by
  have hadd : Yield.only (g + h) = Yield.only g ++ Yield.only h := by
    ext1 <;> simp
  rw [hadd, Yield.append_assoc, ← Yield.append_assoc k, ← Yield.only_append_comm,
    Yield.append_assoc]

/-- A method counts what a member and a function count together. -/
theorem counted_method {kind other : String} {lloc : Count} {first : List Token} {rule : Rule}
    {entry : Int} {texts member : List String} (hnode : p.node = .object fields)
    (hparts : MethodParts fields) (hfields : wellFormedFields fields) (hkind : p.node.kind? = some kind)
    (hrule : dialect.rule? kind = some (methodRule lloc first))
    (hread : (methodRule lloc first).read s p = .ok (operation (entry + 1) texts))
    (hmember : IsMember q other fields) (hproperty : other ∈ ["Property", "MethodDefinition"])
    (hrule' : Estree.dialect.rule? other = some rule) (hopens : rule.opens = none)
    (hread' : rule.read s q = .ok (operation entry member))
    (hcount : ∀ token, texts.count token =
      member.count token + (functionTexts p.node).count token)
    (hasked : ∀ kinds ∈ askedParents, kinds.contains kind = false)
    (ih : CountedBelow s p.node.size) :
    counted (Estree.dialect.harvest s lines q) = counted (dialect.harvest s lines p) := by
  let function : Child := ⟨"value", true, methodFunction (.object (translateFields fields))⟩
  have hwell : ∀ {key}, key ∉ nonChildKeys → wellFormed (p.node.get key) := by
    rw [hnode]
    exact wellFormed_get hfields
  -- The parts count the same, under either parent.
  have hpart : ∀ key ∈ ["key", "params", "body"], ∀ (b : Document) (kind' : String),
      b.kind? = some kind' → (∀ kinds ∈ askedParents, kinds.contains kind' = false) →
      ∀ lines, counted (Estree.dialect.harvestAll s lines b
        ((childrenAt key (p.node.get key)).map translateChild)) =
        counted (dialect.harvestAll s lines p.node (childrenAt key (p.node.get key))) := by
    intro key hkey b kind' hb hasked' lines
    refine Dialect.counted_harvestAll translateChild fun c hc => ?_
    have hopen : ∀ key ∈ ["key", "params", "body"], key ∉ nonChildKeys := by decide
    have hmem : c ∈ p.node.children [] := by
      rw [hnode] at hc ⊢
      exact mem_children_of_get (hopen key hkey) hc
    have hslots : ∀ key ∈ ["key", "params", "body"], key ∉ Placed.bindingSlots := by decide
    refine ih lines (size_lt_of_mem_children hmem) (counterparts_of_key ?_ ?_ hkind hb ?_)
    · rw [hnode] at hmem
      exact wellFormed_child hfields hmem
    · rw [key_of_mem_childrenAt hc]
      exact hslots key hkey
    · intro kinds hkinds
      rw [hasked kinds hkinds, hasked' kinds hkinds]
  have hfree : ∀ kind ∈ ["Property", "MethodDefinition", "FunctionExpression"],
      ∀ kinds ∈ askedParents, kinds.contains kind = false := by decide
  have hestree : Estree.dialect.harvest s lines q = (do
      let k ← Estree.dialect.harvestAll s lines q.node
        ((childrenAt "key" (p.node.get "key")).map translateChild)
      let f ← Estree.dialect.harvest s lines (function.placed q.node)
      return .ofContribution s (operation entry member) ++ (k ++ f)) := by
    rw [Dialect.harvest]
    simp only [ruleFor_eq hmember.kind_eq hrule', hread', hopens]
    show (do
      let below ← Estree.dialect.harvestAll s lines q.node (q.node.children [])
      return Yield.ofContribution s (operation entry member) ++ below) = _
    rw [hmember.children, Dialect.harvestAll_append, Dialect.harvestAll_singleton, hnode]
    simp only [bind_assoc, pure_bind]
    rfl
  have hlines : (function.placed q.node).node.lines? = p.node.lines? := by
    refine lines?_eq ?_
    rw [hnode]
    show (Document.object (translateFields fields)).get "loc" = (Document.object fields).get "loc"
    rw [Document.get, field?, lookup_translateFields_side (by decide)]
    rfl
  have htexts : functionTexts (function.placed q.node).node = functionTexts p.node := by
    have hasync : (function.placed q.node).node.get "async" = translate (p.node.get "async") := by
      rw [hnode]
      exact get_translateFields (by decide)
    have hgenerator : (function.placed q.node).node.get "generator" =
        translate (p.node.get "generator") := by
      rw [hnode]
      exact get_translateFields (by decide)
    rw [functionTexts, functionTexts, textIf, textIf, hasync, hgenerator, truthy_translate,
      truthy_translate]
  rw [counted_eq_iff, hestree, harvest_method hnode hparts hkind hrule hread rfl,
    harvest_methodFunction hparts rfl, hlines, htexts]
  simp only [bind_assoc, pure_bind]
  rw [← hnode]
  refine (counted_eq_iff.mp (hpart "key" (by decide) q.node other hmember.kind_eq ?_ lines)).bind
    fun k k' hk => ?_
  · exact hfree other (by simp at hproperty ⊢; tauto)
  refine (counted_eq_iff.mp (hpart "params" (by decide) _ "FunctionExpression" rfl
    (hfree _ (by decide)) lines)).bind fun m m' hm => ?_
  refine Agree.bind_same _ fun l => ?_
  refine (counted_eq_iff.mp (hpart "body" (by decide) _ "FunctionExpression" rfl
    (hfree _ (by decide)) _)).bind fun i i' hi => .ok ?_
  -- The scopes are the same, and the tokens come in another order.
  have hname := functionName?_member hmember hproperty hnode (hwell (by decide))
  have hparams : (function.placed q.node).node.parameters.map parameterName =
      p.node.parameters.map parameterName := by
    refine parameterNames_eq ?_ (hwell (by decide))
    rw [hnode]
    exact get_translateFields (by decide)
  have hscope : ∀ y : Yield ScopeCounts,
      y.enclose openingCounts .function Estree.functionRule (function.placed q.node) (l.getD lines) =
        y.enclose openingCounts .function (methodRule lloc first) p (l.getD lines) := by
    intro y
    show Yield.inFunction _ (Placed.functionName? _) _ _ y = Yield.inFunction _ p.methodName? _ _ y
    rw [hname, hparams]
  have hcounts : Gain.counts { lines := entry, operators := member } +
      Gain.counts { lines := 1, operators := functionTexts p.node } =
        Gain.counts { lines := entry + 1, operators := texts } := by
    ext <;> simp [Gain.counts, hcount]
  unfold SameCount
  rw [Yield.map_append, Yield.map_append, Yield.map_append, Yield.map_append, Yield.map_enclose,
    Yield.map_append, Yield.map_append, Yield.map_append, Yield.map_enclose, map_operation,
    map_operation, map_operation, hk, hm, hi, hscope, only_append_only, hcounts,
    Yield.append_assoc]

theorem isAccessor_eq {a b : Document} (h : b.get "kind" = translate (a.get "kind")) :
    isAccessor b = isAccessor a := by
  rw [isAccessor, isAccessor, h, isOneOf_translate]

theorem accessorTexts_eq {a b : Document} (h : b.get "kind" = translate (a.get "kind")) :
    accessorTexts b = accessorTexts a := by
  rw [accessorTexts, accessorTexts, isAccessor_eq h]
  split
  · rename_i haccessor
    rw [h]
    unfold isAccessor isOneOf at haccessor
    split at haccessor
    · rename_i text hkind
      rw [hkind]
      rfl
    · cases haccessor
  · rfl

/-- A property that stands for a method is a member. -/
theorem isMember_objectMethod (hparts : MethodParts fields)
    (hq : q.node = Form.objectMethod.apply (translateFields fields)) :
    IsMember q "Property" fields := by
  refine ⟨by rw [hq]; rfl, ?_, ?_, ?_⟩
  · rw [hq]
    exact get_translateFields (by decide)
  · rw [hq]
    exact get_translateFields (by decide)
  · have hkind : childrenAt "kind" (if isAccessor (.object (translateFields fields)) then
        (Document.object (translateFields fields)).get "kind" else .string "init") = [] := by
      split
      · exact hparts.childrenAt_eq_nil _ (by decide) (by decide)
      · rfl
    rw [hq]
    show (build "Property" _ _).children [] = _
    rw [children_build]
    show childrenAt "kind" _ ++ ([] ++ ([] ++ (childrenAt "computed" _ ++ (childrenAt "key" _ ++
      ([⟨"value", true, methodFunction _⟩] ++ []))))) = _
    rw [hkind, hparts.childrenAt_eq_nil "computed" (by decide) (by decide),
      childrenAt_translateFields (by decide)]
    simp

/-- A method definition is a member. -/
theorem isMember_classMethod (hparts : MethodParts fields)
    (hq : q.node = Form.classMethod.apply (translateFields fields)) :
    IsMember q "MethodDefinition" fields := by
  refine ⟨by rw [hq]; rfl, ?_, ?_, ?_⟩
  · rw [hq]
    exact get_translateFields (by decide)
  · rw [hq]
    exact get_translateFields (by decide)
  · rw [hq]
    show (build "MethodDefinition" _ _).children [] = _
    rw [children_build]
    show childrenAt "kind" _ ++ (childrenAt "static" _ ++ (childrenAt "computed" _ ++
      (childrenAt "key" _ ++ ([⟨"value", true, methodFunction _⟩] ++ [])))) = _
    rw [hparts.childrenAt_eq_nil "kind" (by decide) (by decide),
      hparts.childrenAt_eq_nil "static" (by decide) (by decide),
      hparts.childrenAt_eq_nil "computed" (by decide) (by decide),
      childrenAt_translateFields (by decide)]
    simp

theorem counted_objectMethod (h : Counterparts p q) (hnode : p.node = .object fields)
    (hkind : p.node.kind? = some "ObjectMethod") (hparts : MethodParts fields)
    (hfields : wellFormedFields fields) (ih : CountedBelow s p.node.size) :
    counted (Estree.dialect.harvest s lines q) = counted (dialect.harvest s lines p) := by
  have hq : q.node = Form.objectMethod.apply (translateFields fields) := by
    rw [h.node, hnode, translate_object (hnode ▸ hkind)]
    rfl
  have hread : ∀ {rule}, Estree.dialect.rule? "Property" = some rule →
      rule.read s q = .ok (operation (entryLines p.parent) (accessorTexts p.node)) := by
    intro rule hrule
    have hentry : entryLines q.parent = entryLines p.parent := by
      rw [entryLines, entryLines, h.under _ (by decide)]
    have htexts : accessorTexts (.object (translateFields fields)) = accessorTexts p.node := by
      rw [hnode]
      exact accessorTexts_eq (get_translateFields (by decide))
    rw [← hentry, ← htexts]
    exact read_methodProperty hrule (by rw [hq]; rfl) (by rw [hq]; rfl) (by rw [hq]; rfl)
  refine counted_method hnode hparts hfields hkind (rule?_own rfl) read_objectMethod
    (isMember_objectMethod hparts hq) (by decide) rfl rfl (hread rfl) (fun token => ?_) (by decide) ih
  rw [List.count_append, Nat.add_comm]

theorem counted_classMethod {kind : String} (h : Counterparts p q) (hnode : p.node = .object fields)
    (hkind : p.node.kind? = some kind) (known : kind ∈ ["ClassMethod", "ClassPrivateMethod"])
    (hparts : MethodParts fields) (hfields : wellFormedFields fields)
    (ih : CountedBelow s p.node.size) :
    counted (Estree.dialect.harvest s lines q) = counted (dialect.harvest s lines p) := by
  have hform : form kind = .classMethod := by
    have hall : ∀ kind ∈ ["ClassMethod", "ClassPrivateMethod"], form kind = .classMethod := by decide
    exact hall kind known
  have hrule : dialect.rule? kind = some (methodRule (.fixed 1) [staticToken]) := by
    simp only [List.mem_cons, List.not_mem_nil, or_false] at known
    rcases known with rfl | rfl <;> exact rule?_own rfl
  have hasked : ∀ kind ∈ ["ClassMethod", "ClassPrivateMethod"], ∀ kinds ∈ askedParents,
      kinds.contains kind = false := by decide
  have hq : q.node = Form.classMethod.apply (translateFields fields) := by
    rw [h.node, hnode, translate_object (hnode ▸ hkind), hform]
  have hread : ∀ {rule}, Estree.dialect.rule? "MethodDefinition" = some rule → rule.read s q =
      .ok (operation 0 (textIf p.node "static" "static" ++ accessorTexts p.node)) := by
    intro rule hrule
    have hstatic : q.node.get "static" = translate (p.node.get "static") := by
      rw [hq, hnode]
      exact get_translateFields (by decide)
    have hkind' : q.node.get "kind" = translate (p.node.get "kind") := by
      rw [hq, hnode]
      exact get_translateFields (by decide)
    rw [read_methodDefinition hrule, accessorTexts_eq hkind', textIf, textIf, hstatic,
      truthy_translate]
  refine counted_method hnode hparts hfields hkind hrule read_classMethod
    (isMember_classMethod hparts hq) (by decide) rfl rfl (hread rfl) (fun token => ?_)
    (hasked kind known) ih
  -- The same texts in another order: the texts of the function come after those of the member.
  simp only [List.count_append]
  omega

end CodeMetrics.Babel
