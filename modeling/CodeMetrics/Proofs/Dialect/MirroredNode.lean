import CodeMetrics.Proofs.Dialect.TranslatedRule
import CodeMetrics.Proofs.Traversal.Count

/-!
# `CodeMetrics.Proofs.Dialect.MirroredNode`: nodes that are translated field by field

Most nodes keep their fields, and only what hangs below is translated. Such a node counts the
same in both dialects, as long as everything below it does (`counted_mirrored`). That covers the
kinds that both dialects have and those that only change their name (`counted_fields`), and
properties, which get two marks that say nothing new (`counted_property`).
-/

set_option autoImplicit false

namespace CodeMetrics

namespace Babel

open Document

variable {fields : List (String × Document)} {s : Settings} {lines : Lines Int} {p q : Placed}

/-- The kinds of parents that bind a name, apart from properties. -/
def binderKinds : List String := ["VariableDeclarator", "AssignmentExpression", "AssignmentPattern"]

/-- Nodes of both kinds bind names in the same way. -/
def sameBinder (kind other : String) : Bool :=
  binderKinds.all (fun binder => (other == binder) == (kind == binder)) &&
  Placed.propertyKinds.contains other == Placed.propertyKinds.contains kind

theorem sameBinder_refl (kind : String) : sameBinder kind kind := by
  simp [sameBinder]

/-- A child of a node that is read field by field is named by the same binding. -/
theorem bindingName?_mirrored {except : List String} {a b : Document} {kind other : String}
    (h : Mirrors except a b) (hexcept : ∀ key ∈ except, key ∈ ["kind", "method"])
    (hkind : a.kind? = some kind) (hother : b.kind? = some other)
    (hbinder : sameBinder kind other)
    (hwell : ∀ {key}, key ∉ nonChildKeys → wellFormed (a.get key)) (c : Child)
    (hobject : c.node.isObject) :
    ((translateChild c).placed b).bindingName? = (c.placed a).bindingName? := by
  have hnot : ∀ key, key ∉ ["kind", "method"] → key ∉ except := fun key hkey hin =>
    hkey (hexcept key hin)
  have hunder : ∀ key, ((translateChild c).placed b).isUnder key = (c.placed a).isUnder key := by
    intro key
    have htranslated : ((translateChild c).placed b).node.isObject :=
      (isObject_translate c.node).trans hobject
    have horiginal : (c.placed a).node.isObject := hobject
    rw [Placed.isUnder_eq htranslated, Placed.isUnder_eq horiginal]
    rfl
  simp only [sameBinder, Bool.and_eq_true, List.all_eq_true, beq_iff_eq] at hbinder
  obtain ⟨hbinders, hproperty⟩ := hbinder
  have hequal : ∀ binder ∈ binderKinds, (other = binder) = (kind = binder) := by
    intro binder hmem
    simpa [Bool.beq_eq_decide_eq] using hbinders binder hmem
  have hname : ∀ key, key ∉ nonChildKeys → key ∉ ["kind", "method"] →
      (b.get key).name? = (a.get key).name? := by
    intro key hopen hkey
    rw [h.get key hopen (hnot key hkey), name?_translate (hwell hopen)]
  have htarget : (b.get "id").kind? = some "Identifier" ↔ (a.get "id").kind? = some "Identifier" := by
    rw [h.get "id" (by decide) (hnot _ (by decide)), kind?_translate_eq (by decide) (by decide)]
  have hcomputed : (b.get "computed").truthy = (a.get "computed").truthy := by
    rw [h.get "computed" (by decide) (hnot _ (by decide)), truthy_translate]
  have hoperator := h.field? "operator" (by decide) (hnot _ (by decide))
  have hparent : ((translateChild c).placed b).parent = b := rfl
  have hparent' : (c.placed a).parent = a := rfl
  unfold Placed.bindingName?
  simp only [hparent, hparent', hkind, hother, hunder, hequal "VariableDeclarator" (by decide),
    hequal "AssignmentExpression" (by decide), hequal "AssignmentPattern" (by decide), hproperty,
    htarget, hname "id" (by decide) (by decide), hname "left" (by decide) (by decide),
    hname "key" (by decide) (by decide), hcomputed, hoperator]
  -- What is left is the operator, which is compared with a text.
  cases a.field? "operator" with
  | none => rfl
  | some value =>
    cases value with
    | object fields =>
      obtain ⟨fields', hfields⟩ := exists_translate_object fields
      simp only [Option.map_some, hfields]
    | _ => rfl

/-! ### Places below a node -/

/-- The children of a well-formed node are well-formed nodes. -/
theorem wellFormed_child (h : wellFormedFields fields) {ignored : List String} {c : Child}
    (hc : c ∈ (Document.object fields).children ignored) : wellFormed c.node ∧ c.node.isNode := by
  obtain ⟨field, hfield, hkey, hc⟩ := exists_field_of_mem_children hc
  obtain ⟨-, hnode, hplace⟩ := of_mem_childrenAt hc
  have hvalue : wellFormed field.2 := wellFormed_field h hfield hkey
  refine ⟨?_, hnode⟩
  rcases hplace with heq | ⟨items, heq, hmem⟩
  · rwa [heq]
  · exact wellFormed_item (heq ▸ hvalue) _ hmem

/-- Nodes are objects. -/
theorem isObject_of_isNode {d : Document} (h : d.isNode) : d.isObject := by
  cases d with
  | object fields => rfl
  | _ => cases h

/-- A child and its translation are counterparts if the parents are asked the same. -/
theorem counterparts_child {a b : Document} {c : Child} (hc : wellFormed c.node ∧ c.node.isNode)
    (hunder : ∀ kinds ∈ askedParents, b.kindIn kinds = a.kindIn kinds)
    (hbinding : ((translateChild c).placed b).bindingName? = (c.placed a).bindingName?) :
    Counterparts (c.placed a) ((translateChild c).placed b) where
  node := rfl
  wellFormed := hc.1
  isNode := hc.2
  under := hunder
  binding := hbinding

/-- Parents of kinds that no rule asks about are asked the same. -/
theorem under_of_not_asked {a b : Document} {kind other : String} (hkind : a.kind? = some kind)
    (hother : b.kind? = some other)
    (h : ∀ kinds ∈ askedParents, kinds.contains other = kinds.contains kind) :
    ∀ kinds ∈ askedParents, b.kindIn kinds = a.kindIn kinds := by
  intro kinds hkinds
  unfold kindIn
  rw [hkind, hother]
  exact h kinds hkinds

/-! ### Nodes that are read field by field -/

/-- A node that is read field by field counts the same, if what is below it does. -/
theorem counted_harvest_mirrored {rule rule' : Rule} (hrule : dialect.ruleFor p.node = some rule)
    (hrule' : Estree.dialect.ruleFor q.node = some rule') (hopens : rule'.opens = rule.opens)
    (hkeys : rule'.scopeKeys = rule.scopeKeys) (hread : rule'.read s q = rule.read s p)
    (hchildren : ∀ ignored, q.node.children ignored = (p.node.children ignored).map translateChild)
    (hscope : ∀ form ∈ rule.opens, q.node.lines? = p.node.lines? ∧ ∀ own (y : Yield ScopeCounts),
      y.enclose openingCounts form rule' q own = y.enclose openingCounts form rule p own)
    (hbelow : ∀ lines, ∀ c ∈ p.node.children [],
      counted (Estree.dialect.harvest s lines ((translateChild c).placed q.node)) =
        counted (dialect.harvest s lines (c.placed p.node))) :
    counted (Estree.dialect.harvest s lines q) = counted (dialect.harvest s lines p) := by
  -- Children are selected by their key, and the translation of a child keeps it.
  have hall : ∀ lines ignored (keep : String → Bool),
      counted (Estree.dialect.harvestAll s lines q.node
        ((q.node.children ignored).filter fun c => keep c.key)) =
      counted (dialect.harvestAll s lines p.node
        ((p.node.children ignored).filter fun c => keep c.key)) := by
    intro lines ignored keep
    rw [hchildren, List.filter_map]
    refine Dialect.counted_harvestAll translateChild fun c hc => hbelow lines c ?_
    rw [children_eq_filter] at hc
    exact List.mem_of_mem_filter (List.mem_of_mem_filter hc)
  rw [Dialect.harvest, Dialect.harvest]
  simp only [hrule, hrule', hread, hopens, hkeys]
  cases hcase : rule.read s p with
  | error fault => rfl
  | ok c =>
    cases hform : rule.opens with
    | none =>
      have heverything := hall lines c.ignored fun _ => true
      simp only [List.filter_true] at heverything
      exact (counted_prepend _ _).trans
        ((congrArg (· >>= _) heverything).trans (counted_prepend _ _).symm)
    | some form =>
      obtain ⟨hlines, henclose⟩ := hscope form hform
      refine (counted_scope _ _ _ _ form rule' q _).trans
        (Eq.trans ?_ (counted_scope _ _ _ _ form rule p _).symm)
      rw [hall lines c.ignored fun key => rule.scopeKeys.contains key, hlines]
      refine bind_congr fun o => bind_congr fun l => ?_
      rw [hall _ c.ignored fun key => !rule.scopeKeys.contains key]
      exact bind_congr fun i => by rw [henclose]

/-- Smaller trees count the same. -/
def CountedBelow (s : Settings) (size : Nat) : Prop :=
  ∀ (lines : Lines Int) {p q : Placed}, p.node.size < size → Counterparts p q →
    counted (Estree.dialect.harvest s lines q) = counted (dialect.harvest s lines p)

/-- A scope takes the same name, parameters and base class. -/
theorem enclose_eq {rule rule' : Rule}
    (hname : rule'.naming.bind (·.name? q) = rule.naming.bind (·.name? p))
    (hparams : q.node.parameters.map parameterName = p.node.parameters.map parameterName)
    (hsuper : (q.node.get "superClass").name? = (p.node.get "superClass").name?)
    (form : ScopeForm) (own : Lines Int) (y : Yield ScopeCounts) :
    y.enclose openingCounts form rule' q own = y.enclose openingCounts form rule p own := by
  unfold Yield.enclose
  rw [hname, hparams, hsuper]

theorem ruleFor_eq {d : Dialect} {node : Document} {kind : String} {rule : Option Rule}
    (hkind : node.kind? = some kind) (hrule : d.rule? kind = rule) : d.ruleFor node = rule := by
  rw [Dialect.ruleFor, hkind, Option.bind_some, hrule]

/-- Nodes that are read field by field count the same, if their rules read the same and open
scopes in the same way. -/
theorem counted_mirrored {except : List String} {kind other : String} {rule rule' : Rule}
    (h : Counterparts p q) (hnode : p.node = .object fields) (hkind : p.node.kind? = some kind)
    (hother : q.node.kind? = some other) (hmirrors : Mirrors except p.node q.node)
    (hexcept : ∀ key ∈ except, key ∈ ["kind", "method"]) (hfields : wellFormedFields fields)
    (hrule : dialect.rule? kind = some rule) (hrule' : Estree.dialect.rule? other = some rule')
    (hopens : rule'.opens = rule.opens) (hkeys : rule'.scopeKeys = rule.scopeKeys)
    (hnaming : rule'.naming = rule.naming) (hread : rule'.read s q = rule.read s p)
    (hbinder : sameBinder kind other)
    (hasked : ∀ kinds ∈ askedParents, kinds.contains other = kinds.contains kind)
    (ih : CountedBelow s p.node.size) :
    counted (Estree.dialect.harvest s lines q) = counted (dialect.harvest s lines p) := by
  have hnot : ∀ key, key ∉ ["kind", "method"] → key ∉ except := fun key hkey hin =>
    hkey (hexcept key hin)
  have hwell : ∀ {key}, key ∉ nonChildKeys → wellFormed (p.node.get key) := by
    rw [hnode]
    exact wellFormed_get hfields
  have hname : ∀ key, key ∉ nonChildKeys → key ∉ ["kind", "method"] →
      (q.node.get key).name? = (p.node.get key).name? := by
    intro key hkey hfree
    rw [hmirrors.get key hkey (hnot key hfree), name?_translate (hwell hkey)]
  -- A name is read from the binding, the `id` or the `key`, and none of these is among the
  -- exceptions.
  have hnames : ∀ naming : Naming, naming.name? q = naming.name? p := by
    intro naming
    cases naming with
    | binding => exact h.binding
    | ownThenBinding =>
      show q.functionName? = p.functionName?
      unfold Placed.functionName?
      rw [hname "id" (by decide) (by decide), h.binding]
    | key =>
      show q.methodName? = p.methodName?
      unfold Placed.methodName?
      rw [hname "key" (by decide) (by decide),
        hmirrors.get "computed" (by decide) (hnot _ (by decide)), truthy_translate]
  refine counted_harvest_mirrored (ruleFor_eq hkind hrule) (ruleFor_eq hother hrule') hopens hkeys
    hread hmirrors.children
    (fun form _ => ⟨lines?_eq hmirrors.loc, enclose_eq ?_ ?_ (hname _ (by decide) (by decide)) form⟩)
    fun lines c hc => ?_
  · rw [hnaming]
    cases rule.naming with
    | none => rfl
    | some naming => exact hnames naming
  · exact parameterNames_eq (hmirrors.get _ (by decide) (hnot _ (by decide))) (hwell (by decide))
  · have hchild : wellFormed c.node ∧ c.node.isNode := by
      rw [hnode] at hc
      exact wellFormed_child hfields hc
    refine ih lines (size_lt_of_mem_children hc) (counterparts_child hchild
      (under_of_not_asked hkind hother hasked) ?_)
    exact bindingName?_mirrored hmirrors hexcept hkind hother hbinder hwell c
      (isObject_of_isNode hchild.2)

/-- Nodes of kinds with the same rule in both dialects count the same. -/
theorem counted_fields {kind other : String} (h : Counterparts p q)
    (hnode : p.node = .object fields) (hkind : p.node.kind? = some kind)
    (hother : q.node.kind? = some other) (hmirrors : Mirrors [] p.node q.node)
    (hfields : wellFormedFields fields) (plain : plainFields fields)
    (hsame : dialect.rule? kind = Estree.dialect.rule? other) (known : isShared other)
    (hbinder : sameBinder kind other)
    (hasked : ∀ kinds ∈ askedParents, kinds.contains other = kinds.contains kind)
    (ih : CountedBelow s p.node.size) :
    counted (Estree.dialect.harvest s lines q) = counted (dialect.harvest s lines p) := by
  obtain ⟨rule, hrule', hmem⟩ := exists_rule known
  have hrule : dialect.rule? kind = some rule := hsame.trans hrule'
  have hruleFor := ruleFor_eq hkind hrule
  have hresembles := hmirrors.resembles (fun key hkey => hnode ▸ isObject_of_listKeys plain hkey)
    h.under
  have hwell : ∀ {key}, key ∉ nonChildKeys → wellFormed (p.node.get key) := by
    rw [hnode]
    exact wellFormed_get hfields
  have hobject : q.node.isObject = p.node.isObject := by rw [h.node, isObject_translate]
  -- The rule is the same one, so it reads the same at nodes it cannot tell apart.
  refine counted_mirrored h hnode hkind hother hmirrors (by simp) hfields hrule hrule' rfl rfl rfl
    (hresembles.read_eq (portable_rules _ hmem) ?_ ?_ fun form _ =>
      (hmirrors.refersAlike hobject (hresembles.lists _ (by decide)) hwell).read_eq form)
    hbinder hasked ih
  · intro value hvalue
    refine scalar_of_texts plain (List.mem_append_right _ ?_)
    rw [← hnode, hruleFor]
    exact hvalue
  · intro key hkey
    rw [hnode]
    exact isPlain_of_innerKeys (hnode ▸ hruleFor) plain hkey

/-! ### Properties -/

/-- A property is marked as neither accessor nor method, so only its short form matters. -/
theorem read_property {rule rule' : Rule} (hrule : dialect.rule? "ObjectProperty" = some rule)
    (hrule' : Estree.dialect.rule? "Property" = some rule') (h : Counterparts p q)
    (hshort : (q.node.get "shorthand").truthy = (p.node.get "shorthand").truthy)
    (hinit : q.node.get "kind" = .string "init") (hmethod : q.node.get "method" = .bool false) :
    rule'.read s q = rule.read s p := by
  have hentry := h.under ["ObjectExpression", "RecordExpression"] (by decide)
  cases (rule?_own rfl).symm.trans hrule
  cases hrule'
  simp only [Rule.read, Count.read, Skip.read, Token.readAll, Token.read, Condition.holds,
    Estree.isObjectEntry, Estree.propertyToken, Estree.isAccessor, hentry, hinit, hmethod, hshort]
  cases (p.node.get "shorthand").truthy <;> rfl

theorem counted_property (h : Counterparts p q) (hnode : p.node = .object fields)
    (hkind : p.node.kind? = some "ObjectProperty")
    (apart : ∀ c ∈ p.node.children [], c.key ∉ ["kind", "method"])
    (hfields : wellFormedFields fields) (ih : CountedBelow s p.node.size) :
    counted (Estree.dialect.harvest s lines q) = counted (dialect.harvest s lines p) := by
  have hmirrors : Mirrors ["kind", "method"] p.node q.node := by
    rw [h.node, hnode]
    exact mirrors_property (hnode ▸ hkind) (hnode ▸ apart)
  have htranslated : q.node = (form "ObjectProperty").apply (translateFields fields) := by
    rw [h.node, hnode, translate_object (hnode ▸ hkind)]
  have hshort : (q.node.get "shorthand").truthy = (p.node.get "shorthand").truthy := by
    rw [hmirrors.get "shorthand" (by decide) (by decide), truthy_translate]
  have hother : q.node.kind? = some "Property" := by
    rw [htranslated]
    rfl
  have hread := read_property (s := s) (rule?_own rfl) rfl h hshort (by rw [htranslated]; rfl)
    (by rw [htranslated]; rfl)
  exact counted_mirrored h hnode hkind hother hmirrors (fun _ hkey => hkey) hfields
    (rule?_own rfl) rfl rfl rfl rfl hread (by decide) (by decide) ih

end Babel

end CodeMetrics
