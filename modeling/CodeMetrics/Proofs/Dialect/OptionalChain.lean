import CodeMetrics.Proofs.Dialect.TranslatedRule

/-!
# `CodeMetrics.Proofs.Dialect.OptionalChain`: optional chains with and without a node around them

In a Babel tree the links of an optional chain are members and calls of kinds of their own. In an
ESTree they are plain members and calls, and one node stands around the whole chain.
`Babel.chain` turns the first form into the second one, wherever chains stand in a tree and
however long they are. A link that continues a chain hangs under the key that holds what comes
before, and gets no node of its own around it.

A node and its other form resemble each other (`resembles_chain`), have children of the other form
(`children_chain`) and refer to the same modules (`refersAlike_chain`).
-/

set_option autoImplicit false

namespace CodeMetrics.Babel

open Document

/-! ### The two forms -/

/-- The kinds of links in a Babel tree. -/
def linkKinds : List String := ["OptionalMemberExpression", "OptionalCallExpression"]

/-- Whether a value is a link of a chain in a Babel tree. -/
def isLink (d : Document) : Bool :=
  d.kindIn linkKinds

/-- The kind that a link has in an ESTree. -/
def linkKind : String → String
  | "OptionalMemberExpression" => "MemberExpression"
  | "OptionalCallExpression" => "CallExpression"
  | kind => kind

/-- The kind of a node as its field holds it, in an ESTree. -/
def retyped : Document → Document
  | .string kind => .string (linkKind kind)
  | d => d

/-- The keys under which a link holds the part of the chain before it. -/
def chainKeys : List String := ["object", "callee"]

/-- The node around a whole chain. -/
def chainNode (link : Document) : Document :=
  .object [("type", .string "ChainExpression"), ("expression", link), ("loc", link.get "loc")]

mutual

/-- The ESTree form of a value, which may stand inside of a chain. -/
def chain (inside : Bool) : Document → Document
  | .list items => .list (chainItems inside items)
  | .object fields =>
    let link := isLink (.object fields)
    let node := Document.object (chainFields link fields)
    if link && !inside then chainNode node else node
  | .null => .null
  | .bool value => .bool value
  | .int value => .int value
  | .float value => .float value
  | .string text => .string text

/-- The ESTree forms of some values. -/
def chainItems (inside : Bool) : List Document → List Document
  | [] => []
  | d :: rest => chain inside d :: chainItems inside rest

/-- The fields of a node with the ESTree forms of their values. Those of a link may go on with
the chain. -/
def chainFields (link : Bool) : List (String × Document) → List (String × Document)
  | [] => []
  | (key, d) :: rest =>
    (key,
      if key = "type" then retyped d
      else if nonChildKeys.contains key then d
      else chain (link && chainKeys.contains key) d) :: chainFields link rest

end

/-- The ESTree form of a Babel tree. -/
def chained (root : Document) : Document :=
  chain false root

/-! ### Trees with chains -/

mutual

/-- Whether a test holds of every node of a tree. What is no child is not looked at. -/
def everyNode (p : Document → Bool) : Document → Bool
  | .list items => everyNodeIn p items
  | .object fields =>
    (!(Document.object fields).isNode || p (.object fields)) && everyNodeBelow p fields
  | _ => true

/-- Whether a test holds of every node of some trees. -/
def everyNodeIn (p : Document → Bool) : List Document → Bool
  | [] => true
  | d :: rest => everyNode p d && everyNodeIn p rest

/-- Whether a test holds of every node below one with the given fields. -/
def everyNodeBelow (p : Document → Bool) : List (String × Document) → Bool
  | [] => true
  | (key, d) :: rest => (nonChildKeys.contains key || everyNode p d) && everyNodeBelow p rest

end

/-- Whether a node is a link or of a kind that both dialects have, and its fields hold what its
rule looks for. -/
def isUsual : Document → Bool
  | .object fields =>
    (Document.object fields).kind?.all (fun kind => isShared kind || linkKinds.contains kind) &&
    plainFields fields
  | _ => true

/-- Whether a tree is built from links and from nodes of kinds that both dialects have. -/
def chainable (d : Document) : Bool :=
  everyNode isUsual d

section

variable {p : Document → Bool} {fields : List (String × Document)}

theorem test_of_everyNode {d : Document} (h : everyNode p d) (hnode : d.isNode) : p d := by
  cases d with
  | object fields =>
    rw [everyNode, Bool.and_eq_true, hnode] at h
    exact h.1
  | _ => cases hnode

theorem everyNode_item {items : List Document} (h : everyNode p (.list items)) :
    ∀ item ∈ items, everyNode p item := by
  rw [everyNode] at h
  induction items with
  | nil => simp
  | cons d rest ih =>
    rw [everyNodeIn, Bool.and_eq_true] at h
    exact List.forall_mem_cons.mpr ⟨h.1, ih h.2⟩

theorem everyNode_field (h : everyNodeBelow p fields) {field : String × Document}
    (hfield : field ∈ fields) (hkey : field.1 ∉ nonChildKeys) : everyNode p field.2 := by
  induction fields with
  | nil => cases hfield
  | cons first rest ih =>
    rw [everyNodeBelow, Bool.and_eq_true, Bool.or_eq_true] at h
    rcases List.mem_cons.mp hfield with rfl | hfield
    · exact h.1.resolve_left (by simpa using hkey)
    · exact ih h.2 hfield

theorem everyNode_get {d : Document} (h : everyNode p d) {key : String}
    (hkey : key ∉ nonChildKeys) : everyNode p (d.get key) := by
  cases d with
  | object fields =>
    rw [everyNode, Bool.and_eq_true] at h
    rw [Document.get, field?]
    cases hlookup : lookup key fields with
    | none => rfl
    | some value => exact everyNode_field h.2 (mem_of_lookup hlookup) hkey
  | _ => rfl

/-- What holds of every node of a tree holds of every node below a child. -/
theorem everyNode_child {d : Document} (h : everyNode p d) {ignored : List String} {c : Child}
    (hc : c ∈ d.children ignored) : everyNode p c.node ∧ c.node.isNode := by
  cases d with
  | object fields =>
    rw [everyNode, Bool.and_eq_true] at h
    obtain ⟨field, hfield, hkey, hc⟩ := exists_field_of_mem_children hc
    obtain ⟨-, hnode, hplace⟩ := of_mem_childrenAt hc
    have hvalue : everyNode p field.2 := everyNode_field h.2 hfield hkey
    refine ⟨?_, hnode⟩
    rcases hplace with heq | ⟨items, heq, hmem⟩
    · rwa [heq]
    · exact everyNode_item (heq ▸ hvalue) _ hmem
  | _ => cases hc

theorem everyNode_first {d first : Document} (h : everyNode p d) (hfirst : d.first = .ok first) :
    everyNode p first := by
  unfold Document.first at hfirst
  split at hfirst
  · rename_i items
    cases hfirst
    cases items with
    | nil => rfl
    | cons item rest => exact everyNode_item h item List.mem_cons_self
  · cases hfirst
    split <;> rfl
  · cases hfirst
  · cases hfirst

end

/-- The kinds of links are only known in Babel trees. -/
theorem not_isShared_of_link : ∀ kind ∈ linkKinds, ¬ isShared kind := by
  decide

/-- The nodes of a tree with chains, with what is known of them. -/
theorem usual_of_chainable {fields : List (String × Document)} {kind : String}
    (h : chainable (.object fields)) (hkind : (Document.object fields).kind? = some kind) :
    (isShared kind ∨ kind ∈ linkKinds) ∧ plainFields fields := by
  have husual := test_of_everyNode h (by rw [isNode, hkind]; rfl)
  simpa [isUsual, hkind] using husual

/-! ### Values in the other form -/

variable {fields : List (String × Document)} {inside link : Bool}

theorem chainItems_eq_map (items : List Document) :
    chainItems inside items = items.map (chain inside) := by
  induction items with
  | nil => rfl
  | cons d rest ih => rw [chainItems, ih, List.map_cons]

/-- What hangs under a key that can hold children changes its form. -/
theorem lookup_chainFields {key : String} (h : key ∉ nonChildKeys) :
    lookup key (chainFields link fields) =
      (lookup key fields).map (chain (link && chainKeys.contains key)) := by
  induction fields with
  | nil => rfl
  | cons field rest ih =>
    obtain ⟨name, d⟩ := field
    rw [chainFields, lookup, lookup]
    by_cases hkey : name = key
    · subst hkey
      have htype : name ≠ "type" := fun heq => h (heq ▸ by decide)
      rw [if_pos rfl, if_pos rfl, if_neg htype, if_neg (by simpa using h)]
      rfl
    · rw [if_neg hkey, if_neg hkey, ih]

theorem lookup_loc_chainFields : lookup "loc" (chainFields link fields) = lookup "loc" fields := by
  induction fields with
  | nil => rfl
  | cons field rest ih =>
    obtain ⟨name, d⟩ := field
    rw [chainFields, lookup, lookup]
    by_cases hkey : name = "loc"
    · subst hkey
      rfl
    · rw [if_neg hkey, if_neg hkey, ih]

theorem kind?_chainFields :
    (Document.object (chainFields link fields)).kind? =
      (Document.object fields).kind?.map linkKind := by
  have htype : lookup "type" (chainFields link fields) = (lookup "type" fields).map retyped := by
    induction fields with
    | nil => rfl
    | cons field rest ih =>
      obtain ⟨name, d⟩ := field
      rw [chainFields, lookup, lookup]
      by_cases hkey : name = "type"
      · rw [if_pos hkey, if_pos hkey, if_pos hkey]
        rfl
      · rw [if_neg hkey, if_neg hkey, ih]
  simp only [kind?, field?, htype]
  cases lookup "type" fields with
  | none => rfl
  | some value => cases value <;> rfl

/-- Inside of a chain a node stays where it is. -/
theorem chain_inside (fields : List (String × Document)) :
    chain true (.object fields) = .object (chainFields (isLink (.object fields)) fields) := by
  rw [chain]
  simp

/-- So does any node that is no link. -/
theorem chain_of_not_link (h : isLink (.object fields) = false) (inside : Bool) :
    chain inside (.object fields) = .object (chainFields false fields) := by
  rw [chain]
  simp [h]

/-- A link that continues no chain gets the node around it. -/
theorem chain_of_link {d : Document} (h : isLink d) : chain false d = chainNode (chain true d) := by
  cases d with
  | object fields =>
    rw [chain_inside, chain]
    simp [h]
  | _ => cases h

theorem isNode_of_isLink {d : Document} (h : isLink d) : d.isNode := by
  unfold isLink kindIn at h
  unfold isNode
  cases hkind : d.kind? with
  | none => simp [hkind] at h
  | some kind => rfl

theorem kind?_chain_inside (d : Document) : (chain true d).kind? = d.kind?.map linkKind := by
  cases d with
  | object fields => rw [chain_inside, kind?_chainFields]
  | _ => rfl

theorem isLink_eq {d : Document} {kind : String} (hkind : d.kind? = some kind) :
    isLink d = linkKinds.contains kind := by
  rw [isLink, kindIn, hkind]

theorem linkKind_of_not_mem {kind : String} (h : kind ∉ linkKinds) : linkKind kind = kind := by
  unfold linkKind
  split <;> first | rfl | exact absurd (by decide) h

/-- What is no link keeps its kind. -/
theorem kind?_chain {d : Document} (h : isLink d = false) (inside : Bool) :
    (chain inside d).kind? = d.kind? := by
  cases d with
  | object fields =>
    rw [chain_of_not_link h, kind?_chainFields]
    cases hkind : (Document.object fields).kind? with
    | none => rfl
    | some kind =>
      rw [isLink_eq hkind] at h
      rw [Option.map_some, linkKind_of_not_mem (by simpa using h)]
  | _ => rfl

/-- A link is one kind of node in a chain, and the node around a chain is another one. -/
theorem kind?_of_isLink {d : Document} (h : isLink d) (inside : Bool) :
    ∃ kind ∈ ["MemberExpression", "CallExpression", "ChainExpression"],
      (chain inside d).kind? = some kind := by
  cases inside with
  | false => exact ⟨"ChainExpression", by simp, by rw [chain_of_link h]; rfl⟩
  | true =>
    obtain ⟨kind, hkind⟩ := Option.isSome_iff_exists.mp (isNode_of_isLink h)
    have hmem : kind ∈ linkKinds := by simpa [isLink_eq hkind] using h
    have hall : ∀ kind ∈ linkKinds,
        linkKind kind ∈ ["MemberExpression", "CallExpression", "ChainExpression"] := by decide
    exact ⟨_, hall kind hmem, by rw [kind?_chain_inside, hkind]; rfl⟩

theorem isNode_chain (inside : Bool) (d : Document) : (chain inside d).isNode = d.isNode := by
  cases hlink : isLink d with
  | false => rw [isNode, kind?_chain hlink, isNode]
  | true =>
    obtain ⟨kind, -, hkind⟩ := kind?_of_isLink hlink inside
    rw [isNode, hkind, isNode_of_isLink hlink]
    rfl

/-- Kinds that have nothing to do with chains are found at the same places. -/
theorem kindIn_chain {kinds : List String}
    (h : ∀ kind ∈ ["MemberExpression", "CallExpression", "ChainExpression"] ++ linkKinds,
      kind ∉ kinds) (inside : Bool) (d : Document) :
    (chain inside d).kindIn kinds = d.kindIn kinds := by
  rw [List.forall_mem_append] at h
  cases hlink : isLink d with
  | false => rw [kindIn, kind?_chain hlink, kindIn]
  | true =>
    obtain ⟨kind, hmem, hkind⟩ := kind?_of_isLink hlink inside
    obtain ⟨own, hown⟩ := Option.isSome_iff_exists.mp (isNode_of_isLink hlink)
    rw [isLink_eq hown, List.contains_iff_mem] at hlink
    rw [kindIn, hkind, kindIn, hown]
    simp [h.1 kind hmem, h.2 own hlink]

/-- Objects stay objects. -/
theorem exists_chain_object (inside : Bool) (fields : List (String × Document)) :
    ∃ fields', chain inside (.object fields) = .object fields' := by
  rw [chain]
  split
  · exact ⟨_, rfl⟩
  · exact ⟨_, rfl⟩

/-- A value and its other form are the same for a rule that does not look inside. -/
theorem resembles_chain (inside : Bool) (d : Document) : d.Resembles (chain inside d) := by
  cases d with
  | list items =>
    rw [chain, chainItems_eq_map]
    exact .list (List.length_map _)
  | object fields =>
    have hkind : (chain inside (.object fields)).kindIn ["FunctionExpression"] =
        (Document.object fields).kindIn ["FunctionExpression"] := kindIn_chain (by decide) _ _
    cases hlink : isLink (.object fields) with
    | false =>
      rw [chain_of_not_link hlink] at hkind ⊢
      exact .object (by cases fields <;> rfl) hkind
    | true =>
      have hnode := isNode_of_isLink hlink
      have htruthy : (chain inside (.object fields)).truthy = (Document.object fields).truthy := by
        rw [truthy_of_isNode hnode, truthy_of_isNode ((isNode_chain _ _).trans hnode)]
      obtain ⟨fields', hfields⟩ := exists_chain_object inside fields
      rw [hfields] at hkind htruthy ⊢
      exact .object (Bool.not_inj htruthy) hkind
  | _ => exact .scalar rfl

theorem chain_of_scalar {d : Document} (h : d.isCollection = false) (inside : Bool) :
    chain inside d = d := by
  cases d with
  | list items => cases h
  | object fields => cases h
  | _ => rfl

theorem map_chain_of_scalar {field : Option Document}
    (h : (field.getD .null).isCollection = false) (inside : Bool) :
    field.map (chain inside) = field := by
  cases field with
  | none => rfl
  | some value => exact congrArg some (chain_of_scalar h inside)

/-! ### Fields and children in the other form -/

/-- The fields of a node inside of a chain. -/
theorem field?_chain_inside {d : Document} {key : String} (hkey : key ∉ nonChildKeys) :
    (chain true d).field? key =
      (d.field? key).map (chain (isLink d && chainKeys.contains key)) := by
  cases d with
  | object fields => rw [chain_inside, field?, field?, lookup_chainFields hkey]
  | _ => rfl

theorem get_chain_inside {d : Document} {key : String} (hkey : key ∉ nonChildKeys) :
    (chain true d).get key = chain (isLink d && chainKeys.contains key) (d.get key) := by
  rw [Document.get, field?_chain_inside hkey, Document.get]
  cases d.field? key <;> rfl

/-- The fields of a node that is no link. -/
theorem field?_chain {d : Document} (h : isLink d = false) {key : String}
    (hkey : key ∉ nonChildKeys) (inside : Bool) :
    (chain inside d).field? key = (d.field? key).map (chain false) := by
  cases d with
  | object fields =>
    rw [chain_of_not_link h, field?, field?, lookup_chainFields hkey, Bool.false_and]
  | _ => rfl

theorem get_chain {d : Document} (h : isLink d = false) {key : String} (hkey : key ∉ nonChildKeys)
    (inside : Bool) : (chain inside d).get key = chain false (d.get key) := by
  rw [Document.get, field?_chain h hkey, Document.get]
  cases d.field? key <;> rfl

theorem get_loc_chain (inside : Bool) (d : Document) :
    (chain inside d).get "loc" = d.get "loc" := by
  have hinside : ∀ fields : List (String × Document),
      (chain true (.object fields)).get "loc" = (Document.object fields).get "loc" := by
    intro fields
    rw [chain_inside, Document.get, field?, lookup_loc_chainFields, Document.get, field?]
  cases d with
  | object fields =>
    cases inside with
    | true => exact hinside fields
    | false =>
      cases hlink : isLink (.object fields) with
      | true =>
        rw [chain_of_link hlink, ← hinside]
        rfl
      | false => rw [chain_of_not_link hlink false, ← chain_of_not_link hlink true, hinside]
  | _ => rfl

/-- A child of a node in the other form. It stands inside of a chain if a link holds it under a
key that goes on with the chain. -/
def chainChild (link : Bool) (c : Child) : Child :=
  { c with node := chain (link && chainKeys.contains c.key) c.node }

theorem childrenAt_chain (inside : Bool) (key : String) (d : Document) :
    childrenAt key (chain inside d) =
      (childrenAt key d).map fun c => { c with node := chain inside c.node } := by
  cases d with
  | object fields =>
    obtain ⟨fields', h⟩ := exists_chain_object inside fields
    have hnode := isNode_chain inside (.object fields)
    rw [h] at hnode ⊢
    simp only [childrenAt, hnode]
    split
    · rw [List.map_singleton, h]
    · rfl
  | list items =>
    have hnode : isNode ∘ chain inside = isNode := funext (isNode_chain inside)
    rw [chain, chainItems_eq_map]
    simp only [childrenAt, List.filter_map, List.map_map, hnode]
    rfl
  | _ => rfl

/-- The children of a node inside of a chain are those of the node, in the other form. -/
theorem children_chain (d : Document) (ignored : List String) :
    (chain true d).children ignored = (d.children ignored).map (chainChild (isLink d)) := by
  cases d with
  | object fields =>
    rw [chain_inside, Document.children, Document.children]
    -- Whether the node is a link is fixed while its fields are taken one by one.
    generalize isLink (.object fields) = link
    induction fields with
    | nil => rfl
    | cons field rest ih =>
      obtain ⟨key, d⟩ := field
      rw [chainFields, childrenIn, childrenIn, ih]
      split
      · rename_i hkeep
        have hkey : key ∉ nonChildKeys := by
          intro hmem
          rw [keep_false key hmem] at hkeep
          cases hkeep
        have htype : key ≠ "type" := fun heq => hkey (heq ▸ by decide)
        have hmap : (childrenAt key d).map (chainChild link) =
            (childrenAt key d).map
              fun c => { c with node := chain (link && chainKeys.contains key) c.node } :=
          List.map_congr_left fun c hc => by rw [chainChild, key_of_mem_childrenAt hc]
        rw [if_neg htype, if_neg (by simpa using hkey), childrenAt_chain, List.map_append, hmap]
      · rfl
  | _ => rfl

/-! ### What is read at a node -/

/-- Values that are looked into are no links. -/
theorem isLink_of_isPlain {d : Document} (h : isPlain d) : isLink d = false := by
  unfold isPlain at h
  cases hkind : d.kind? with
  | none => rw [isLink, kindIn, hkind]
  | some kind =>
    have hshared : isShared kind := by rwa [hkind] at h
    rw [isLink_eq hkind]
    simp only [List.contains_eq_mem, decide_eq_false_iff_not]
    exact fun hmem => not_isShared_of_link kind hmem hshared

/-- Looking into a record gives the same text in both forms. -/
theorem getIn_chain {d : Document} {key name : String} (hkey : key ∉ nonChildKeys)
    (hname : name ∉ nonChildKeys) (hplain : isPlain (d.get key))
    (hscalar : ((d.get key).get name).isCollection = false) :
    (chain true d).getIn key name = d.getIn key name := by
  have hget := get_chain_inside (d := d) hkey
  refine Resembles.getIn_eq (hget ▸ resembles_chain _ _) ?_
  rw [hget, field?_chain (isLink_of_isPlain hplain) hname, map_chain_of_scalar hscalar]

/-- A node and its other form resemble each other where their parents do. -/
theorem placed_resembles {asked : List (List String)} {p q : Placed}
    (hnode : q.node = chain true p.node)
    (lists : ∀ key ∈ listKeys, (p.node.get key).isObject = false)
    (under : ∀ kinds ∈ asked, q.parent.kindIn kinds = p.parent.kindIn kinds) :
    p.Resembles asked q where
  get {key} hkey := by
    rw [hnode, get_chain_inside hkey]
    exact resembles_chain _ _
  scalar {key} hkey hscalar := by
    rw [hnode, field?_chain_inside hkey, map_chain_of_scalar hscalar]
  inner {key name} hkey hname hplain hscalar := by
    rw [hnode, getIn_chain hkey hname hplain hscalar]
  lists := lists
  under := under

/-- What a list starts with changes its form. -/
theorem first_chain {d : Document} (h : d.isObject = false) (inside : Bool) :
    (chain inside d).first = d.first.map (chain inside) := by
  cases d with
  | list items =>
    rw [chain, first, first, chainItems_eq_map]
    cases items <;> rfl
  | string s =>
    show (Document.string s).first = (Document.string s).first.map (chain inside)
    rw [first]
    cases s.toList <;> rfl
  | object fields => cases h
  | _ => rfl

/-- The parts of a template stand for the same texts. -/
theorem templateValue_chain (h : chainable (.object fields))
    (hkind : (Document.object fields).kind? = some "TemplateLiteral") (inside : Bool) :
    (chain inside (.object fields)).templateValue = (Document.object fields).templateValue := by
  have hlink : isLink (.object fields) = false := by rw [isLink_eq hkind]; rfl
  have plain := (usual_of_chainable h hkind).2
  have hobject : ((Document.object fields).get "quasis").isObject = false :=
    isObject_of_listKeys plain (by decide)
  have hquasis : (chain inside (.object fields)).get "quasis" =
      chain false ((Document.object fields).get "quasis") := get_chain hlink (by decide) inside
  have hexpressions : (chain inside (.object fields)).get "expressions" =
      chain false ((Document.object fields).get "expressions") := get_chain hlink (by decide) inside
  refine templateValue_eq ?_ (hquasis ▸ resembles_chain _ _) hobject ?_
  · rw [hexpressions, (resembles_chain _ _).truthy_eq]
  · rw [hquasis, first_chain hobject]
    cases hcase : (Document.object fields).get "quasis" with
    | list parts =>
      refine .ok ⟨resembles_chain _ _, ?_⟩
      cases parts with
      | nil => rfl
      | cons part rest =>
        -- A part of a template is a node whose text is in a record.
        have hbelow : chainable part :=
          everyNode_item (hcase ▸ everyNode_get h (by decide)) part List.mem_cons_self
        have hpart : part.kind? = some "TemplateElement" := by
          simp only [plainFields, hcase, Bool.and_eq_true, List.all_eq_true] at plain
          exact kind?_of_kindIn (plain.2 part List.mem_cons_self)
        have hcooked : ((part.get "value").get "cooked").isCollection = false := by
          refine scalar_of_texts plain (List.mem_append_left _ ?_)
          simp [ownTexts, hkind, hcase]
        show (chain false part).getIn "value" "cooked" = part.getIn "value" "cooked"
        cases part with
        | object inner =>
          have hvalue : isPlain ((Document.object inner).get "value") :=
            isPlain_templateValue hpart (usual_of_chainable hbelow hpart).2
          have hinner : isLink (.object inner) = false := by rw [isLink_eq hpart]; rfl
          rw [chain_of_not_link hinner, ← chain_of_not_link hinner true]
          exact getIn_chain (by decide) (by decide) hvalue hcooked
        | _ => cases hpart
    | string text =>
      refine .ok ⟨resembles_chain _ _, ?_⟩
      cases text.toList <;> rfl
    | object inner => rw [hcase] at hobject; cases hobject
    | _ => exact .error _

/-- A node stands for the same text in both forms, if for any. -/
theorem stringValue_chain {d : Document} (h : chainable d) (inside : Bool) :
    (chain inside d).stringValue = d.stringValue := by
  cases hlink : isLink d with
  | true =>
    obtain ⟨kind, hmem, hkind⟩ := kind?_of_isLink hlink inside
    obtain ⟨own, hown⟩ := Option.isSome_iff_exists.mp (isNode_of_isLink hlink)
    rw [isLink_eq hown, List.contains_iff_mem] at hlink
    -- No link of a chain stands for a text, neither before nor after.
    have hnew : ∀ kind ∈ ["MemberExpression", "CallExpression", "ChainExpression"],
        kind ∉ textKinds := by decide
    have hold : ∀ kind ∈ linkKinds, kind ∉ textKinds := by decide
    rw [stringValue_of_other (by simpa [hkind] using hnew kind hmem),
      stringValue_of_other (by simpa [hown] using hold own hlink)]
  | false =>
    have hkind := kind?_chain hlink inside
    by_cases hliteral : d.kind? = some "Literal" ∨ d.kind? = some "StringLiteral"
    · rw [stringValue_of_literal hliteral, stringValue_of_literal (hkind ▸ hliteral),
        get_chain hlink (by decide), (resembles_chain _ _).literalValue_eq]
    · by_cases htemplate : d.kind? = some "TemplateLiteral"
      · cases d with
        | object fields =>
          unfold stringValue
          rw [hkind, htemplate]
          exact templateValue_chain h htemplate inside
        | _ => cases htemplate
      · have hother : ∀ kind, d.kind? = some kind → kind ∉ textKinds := by
          rintro kind hown hmem
          simp only [textKinds, List.mem_cons, List.not_mem_nil, or_false] at hmem
          rcases hmem with rfl | rfl | rfl
          · exact hliteral (.inl hown)
          · exact hliteral (.inr hown)
          · exact htemplate hown
        rw [stringValue_of_other hother, stringValue_of_other (hkind ▸ hother)]

/-- A node refers to the same modules in both forms. -/
theorem refersAlike_chain {s : Settings} {d : Document} (h : chainable d)
    (hlist : (d.get "arguments").isObject = false) : RefersAlike s d (chain true d) where
  lines := lines?_eq (get_loc_chain true d)
  isObject := (resembles_chain true d).isObject_eq
  loader := by
    rw [get_chain_inside (by decide), kindIn_chain (by decide)]
    -- Only an identifier is asked for its name, and no identifier is a link.
    cases hkind : (d.get "callee").kindIn ["Identifier"] with
    | false => rfl
    | true =>
      have hplain := isPlain_of_shared (kind?_of_kindIn hkind) (by decide)
      rw [get_chain (isLink_of_isPlain hplain) (by decide), (resembles_chain _ _).isOneOf_eq]
  keyword := by rw [get_chain_inside (by decide), kindIn_chain (by decide)]
  arguments := by
    rw [get_chain_inside (by decide)]
    exact resembles_chain _ _
  list := hlist
  first := by
    rw [get_chain_inside (by decide), first_chain hlist]
    cases hfirst : (d.get "arguments").first with
    | error fault => exact .error fault
    | ok first =>
      exact .ok (stringValue_chain (everyNode_first (everyNode_get h (by decide)) hfirst) _)
  source := by
    rw [get_chain_inside (by decide)]
    exact resembles_chain _ _
  path := by rw [get_chain_inside (by decide), stringValue_chain (everyNode_get h (by decide))]

end CodeMetrics.Babel
