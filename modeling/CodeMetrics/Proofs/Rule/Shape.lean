import CodeMetrics.Dialect.Registry
import CodeMetrics.Proofs.Document.Remark
import CodeMetrics.Proofs.Rule.Asking
import Mathlib.Algebra.GroupWithZero.Nat

/-!
# `CodeMetrics.Proofs.Rule.Shape`: nodes that every rule can read

Most of what a rule asks of a node has an answer whatever the node holds. The exceptions are few:
a location has places at its ends, some fields of some kinds hold records, arguments and elements
form lists, and a template has parts. `Document.isShaped` tests these at one node, and
`Document.WellShaped` says that a tree passes the test at every node.

What a rule asks for can be read off the rule. `Condition.lengths` are the fields whose length is
asked for, and `Token.records` those that are read as records. The standard dialects ask for no
more than the test ensures (`suits_standard`), so their rules can be read at every node of a
well-shaped tree (`Rule.exists_read`), and what they read is bounded by the size of the node.
-/

set_option autoImplicit false

namespace CodeMetrics

/-! ### Shapes -/

namespace Document

/-- Whether a value is an object or null. -/
def isRecord : Document → Bool
  | .object _ | .null => true
  | _ => false

/-- Whether a value is a list or null. -/
def isListing : Document → Bool
  | .list _ | .null => true
  | _ => false

/-- Whether a value is no line number, or one whose magnitude is below `2 ^ 53`. -/
def isUsableLine (d : Document) : Bool :=
  d.line?.all fun n => n.natAbs < 2 ^ 53

/-- Whether a value is no object, or one with places at both ends. -/
def isLocation : Document → Bool
  | .object fields =>
    ["start", "end"].all fun side =>
      ((object fields).get side).isRecord && (((object fields).get side).get "line").isUsableLine
  | _ => true

/-- Whether a value is null or the list of the parts of a template. -/
def isTemplate : Document → Bool
  | .null => true
  | .list parts => parts.all fun part => part.isObject && (part.get "value").isRecord
  | _ => false

/-- The fields that are read as records, with the kinds of nodes that have them. -/
def recordFields : List (String × String) :=
  [("TemplateElement", "value"), ("MetaProperty", "meta"), ("MetaProperty", "property"),
   ("PrivateName", "id")]

/-- Whether a node has the shape that rules rely on. -/
def isShaped (d : Document) : Bool :=
  (d.get "loc").isLocation &&
  (recordFields.all fun field => !d.kindIn [field.1] || (d.get field.2).isRecord) &&
  (["elements", "arguments"].all fun key => (d.get key).isListing) &&
  (d.get "quasis").isTemplate

/-- A tree whose nodes have the shape that rules rely on. -/
inductive WellShaped : Document → Prop
  | node {d : Document} (here : d.isShaped = true)
      (below : ∀ c ∈ d.children [], c.node.WellShaped) : d.WellShaped

/-- Tests the nodes of a tree down to a depth. A tree that goes deeper does not pass. -/
def isShapedTo : Nat → Document → Bool
  | 0, _ => false
  | depth + 1, d => d.isShaped && (d.children []).all fun c => c.node.isShapedTo depth

theorem wellShaped_of_isShapedTo {depth : Nat} {d : Document} (h : d.isShapedTo depth = true) :
    d.WellShaped := by
  induction depth generalizing d with
  | zero => cases h
  | succ depth ih =>
    rw [isShapedTo, Bool.and_eq_true, List.all_eq_true] at h
    exact .node h.1 fun c hc => ih (h.2 c hc)

/-! ### Children -/

theorem WellShaped.here {d : Document} (h : d.WellShaped) : d.isShaped = true := by
  cases h with
  | node here below => exact here

theorem WellShaped.child {d : Document} (h : d.WellShaped) {ignored : List String} {c : Child}
    (hc : c ∈ d.children ignored) : c.node.WellShaped := by
  rw [children_eq_filter] at hc
  cases h with
  | node here below => exact below c (List.mem_filter.mp hc).1

section

variable {d : Document} (h : d.WellShaped)

include h

theorem WellShaped.location : (d.get "loc").isLocation = true := by
  have hshape := h.here
  simp only [isShaped, Bool.and_eq_true] at hshape
  exact hshape.1.1.1

theorem WellShaped.record {kind key : String} (hfield : (kind, key) ∈ recordFields)
    (hkind : d.kind? = some kind) : (d.get key).isRecord = true := by
  have hshape := h.here
  simp only [isShaped, Bool.and_eq_true, List.all_eq_true] at hshape
  have hrecord := hshape.1.1.2 (kind, key) hfield
  simpa [kindIn, hkind] using hrecord

theorem WellShaped.listing (key : String) (hkey : key ∈ ["elements", "arguments"]) :
    (d.get key).isListing = true := by
  have hshape := h.here
  simp only [isShaped, Bool.and_eq_true, List.all_eq_true] at hshape
  exact hshape.1.2 key hkey

theorem WellShaped.template : (d.get "quasis").isTemplate = true := by
  have hshape := h.here
  simp only [isShaped, Bool.and_eq_true] at hshape
  exact hshape.2

end

/-- The trees that hang under a key of a well-shaped tree. -/
theorem WellShaped.childrenAt {d : Document} (h : d.WellShaped) {key : String}
    (hkey : key ∉ nonChildKeys) {c : Child} (hc : c ∈ Document.childrenAt key (d.get key)) :
    c.node.WellShaped := by
  cases d with
  | object fields => exact h.child (mem_children_of_get hkey hc)
  | _ => cases hc

/-- A node that a field holds is a child. -/
theorem WellShaped.get {d : Document} (h : d.WellShaped) {key : String} (hkey : key ∉ nonChildKeys)
    (hnode : (d.get key).isNode) : (d.get key).WellShaped := by
  refine h.childrenAt (c := ⟨key, true, d.get key⟩) hkey ?_
  cases hvalue : d.get key with
  | object fields =>
    rw [hvalue] at hnode
    simp [Document.childrenAt, hnode]
  | _ =>
    rw [hvalue] at hnode
    cases hnode

/-- A node in a list that a field holds is a child. -/
theorem WellShaped.item {d item : Document} (h : d.WellShaped) {key : String}
    (hkey : key ∉ nonChildKeys) {items : List Document} (hlist : d.get key = .list items)
    (hitem : item ∈ items) (hnode : item.isNode) : item.WellShaped := by
  refine h.childrenAt (c := ⟨key, false, item⟩) hkey ?_
  rw [hlist]
  exact List.mem_map.mpr ⟨item, List.mem_filter.mpr ⟨hitem, hnode⟩, rfl⟩

/-! ### Reading fields -/

/-- A node is an object. -/
theorem isObject_of_kind? {d : Document} {kind : String} (h : d.kind? = some kind) :
    d.isObject = true := by
  cases d with
  | object fields => rfl
  | _ => cases h

/-- A field of a record can be read. -/
theorem getIn_of_isRecord {d : Document} {key : String} (h : (d.get key).isRecord = true)
    (name : String) : d.getIn key name = .ok ((d.get key).field? name) := by
  rw [getIn]
  cases hvalue : d.get key with
  | null => rfl
  | object fields =>
    cases fields with
    | nil => rfl
    | cons field rest => rfl
  | _ =>
    rw [hvalue] at h
    cases h

/-- A listing has a length. -/
theorem exists_count_of_isListing {d : Document} (h : d.isListing = true) :
    ∃ n, d.count = .ok n := by
  cases d with
  | null => exact ⟨0, rfl⟩
  | list items => exact ⟨items.length, rfl⟩
  | _ => cases h

/-- The lines of a node can be read, and they are not too large. -/
theorem exists_lines?_of_isLocation {d : Document} (h : (d.get "loc").isLocation = true) :
    ∃ lines, d.lines? = .ok lines ∧
      ∀ l ∈ lines, l.first.natAbs < 2 ^ 53 ∧ l.last.natAbs < 2 ^ 53 := by
  rw [lines?]
  split
  case h_1 loc hloc =>
    rw [hloc, isLocation] at h
    simp only [List.all_cons, List.all_nil, Bool.and_true, Bool.and_eq_true] at h
    obtain ⟨⟨hstart, hfirst⟩, hstop, hlast⟩ := h
    rw [getIn_of_isRecord hstart, getIn_of_isRecord hstop]
    refine ⟨_, rfl, ?_⟩
    -- A line that is given is a usable one. Where one is missing there are no lines at all.
    intro l hl
    obtain ⟨first, hfirst', hl⟩ := Option.bind_eq_some_iff.mp hl
    obtain ⟨last, hlast', hl⟩ := Option.bind_eq_some_iff.mp hl
    cases hl
    rw [isUsableLine, Document.get, hfirst'] at hfirst
    rw [isUsableLine, Document.get, hlast'] at hlast
    exact ⟨by simpa using hfirst, by simpa using hlast⟩
  case h_2 => exact ⟨none, rfl, by simp⟩

end Document

/-! ### What a rule asks for -/

/-- The fields whose length a condition asks for. -/
def Condition.lengths : Condition → List String
  | .several key => [key]
  | .not c => c.lengths
  | .and a b | .or a b => a.lengths ++ b.lengths
  | _ => []

/-- Whether a field is an object where a condition holds. -/
def Condition.ensures (key : String) : Condition → Bool
  | .isObject other => other == key
  | _ => false

/-- The fields that a piece reads as records. -/
def Piece.records : Piece → List String
  | .inner key _ => [key]
  | _ => []

namespace Token

/-- The fields whose length a token asks for. -/
def lengths : Token → List String
  | .choose c yes no => c.lengths ++ (yes.lengths ++ no.lengths)
  | _ => []

/-- The fields that a token reads as records without having tested that they are. -/
def records : Token → List String
  | .choose c yes no => (yes.records.filter fun key => !c.ensures key) ++ no.records
  | .composed pieces => pieces.flatMap Piece.records
  | .inner key _ => [key]
  | _ => []

/-- Whether a token is read from the node and not given as a value. -/
def isOwn : Token → Bool
  | .given _ => false
  | .choose _ yes no => yes.isOwn && no.isOwn
  | _ => true

end Token

/-- Whether a number is written in the rule and at most two. -/
def Count.isFew : Count → Bool
  | .fixed n => n.natAbs ≤ 2
  | .choose _ yes no => yes.natAbs ≤ 2 && no.natAbs ≤ 2
  | .given _ => false

/-- The fields whose length a number depends on. -/
def Count.lengths : Count → List String
  | .choose c _ _ => c.lengths
  | _ => []

/-- The fields whose length decides which keys are passed over. -/
def Skip.lengths : Skip → List String
  | .when c _ => c.lengths
  | .given _ => []

/-- Whether keys are listed in the rule. -/
def Skip.isListed : Skip → Bool
  | .when _ _ => true
  | .given _ => false

namespace Rule

/-- The fields whose length a rule asks for. -/
def lengths (r : Rule) : List String :=
  r.lloc.lengths ++ (r.cyclomatic.lengths ++ (r.operators.flatMap Token.lengths ++
    (r.operands.flatMap Token.lengths ++ r.skip.lengths)))

/-- The fields that a rule reads as records. -/
def records (r : Rule) : List String :=
  r.operators.flatMap Token.records ++ r.operands.flatMap Token.records

/-- Whether a rule for a kind asks for nothing that a node of the right shape could lack, and
adds little at a time. -/
def suits (kind : String) (r : Rule) : Bool :=
  (r.lengths.all fun key => key == "elements") &&
  (r.records.all fun key => Document.recordFields.contains (kind, key)) &&
  (r.lloc.isFew && r.cyclomatic.isFew) &&
  ((r.operators.all Token.isOwn && r.operands.all Token.isOwn) &&
    (r.operators.length ≤ 8 && r.operands.length ≤ 8)) &&
  (r.skip.isListed && r.scopeKeys.usable)

/-- The rules of the standard dialects do. -/
theorem suits_standard : ∀ entry ∈ Registry.standard.entries, ∀ rule ∈ entry.2.rules,
    rule.2.suits rule.1 = true :=
  Registry.forall_rules (by decide +kernel) (by decide +kernel)

end Rule

/-! ### Reading a rule -/

section

variable {s : Settings} {p : Placed}

/-- A condition has an answer if the lengths that it asks for exist. -/
theorem Condition.exists_holds (c : Condition)
    (h : ∀ key ∈ c.lengths, (p.node.get key).isListing = true) : ∃ b, c.holds s p = .ok b := by
  induction c with
  | several key =>
    obtain ⟨n, hn⟩ := Document.exists_count_of_isListing (h key List.mem_cons_self)
    exact ⟨decide (1 < n), by rw [holds, hn]; rfl⟩
  | not c ih =>
    obtain ⟨b, hb⟩ := ih h
    exact ⟨!b, by rw [holds, hb]; rfl⟩
  | and a b iha ihb =>
    obtain ⟨ha, hb⟩ := List.forall_mem_append.mp h
    obtain ⟨x, hx⟩ := iha ha
    obtain ⟨y, hy⟩ := ihb hb
    refine ⟨x && y, ?_⟩
    rw [holds, hx, hy]
    cases x <;> rfl
  | or a b iha ihb =>
    obtain ⟨ha, hb⟩ := List.forall_mem_append.mp h
    obtain ⟨x, hx⟩ := iha ha
    obtain ⟨y, hy⟩ := ihb hb
    refine ⟨x || y, ?_⟩
    rw [holds, hx, hy]
    cases x <;> rfl
  | _ => exact ⟨_, rfl⟩

/-- What a condition that holds says of a field. -/
theorem Condition.isRecord_of_ensures {c : Condition} {key : String} (h : c.holds s p = .ok true)
    (hkey : c.ensures key = true) : (p.node.get key).isRecord = true := by
  cases c with
  | isObject other =>
    obtain rfl : other = key := by simpa [ensures] using hkey
    have hobject : (p.node.get other).isObject = true := Except.ok.inj h
    cases hvalue : p.node.get other with
    | object fields => rfl
    | _ =>
      rw [hvalue] at hobject
      cases hobject
  | _ => cases hkey

theorem Skip.exists_read {skip : Skip} (hlisted : skip.isListed = true)
    (h : ∀ key ∈ skip.lengths, (p.node.get key).isListing = true) :
    ∃ keys, skip.read s p = .ok keys := by
  cases skip with
  | when c keys =>
    obtain ⟨b, hb⟩ := c.exists_holds (s := s) h
    exact exists_bind_eq_ok hb ⟨_, rfl⟩
  | given value => cases hlisted

theorem Count.exists_read {n : Count} (hfew : n.isFew = true)
    (h : ∀ key ∈ n.lengths, (p.node.get key).isListing = true) :
    ∃ k, n.read s p = .ok k ∧ k.natAbs ≤ 2 := by
  cases n with
  | fixed n => exact ⟨n, rfl, by simpa [isFew] using hfew⟩
  | given value => cases hfew
  | choose c yes no =>
    obtain ⟨b, hb⟩ := c.exists_holds (s := s) h
    rw [isFew, Bool.and_eq_true, decide_eq_true_eq, decide_eq_true_eq] at hfew
    refine ⟨if b then yes else no, by rw [read, hb]; rfl, ?_⟩
    split
    · exact hfew.1
    · exact hfew.2

end

namespace Document

/-- What a field holds is no larger than the object. -/
theorem size_get_le (d : Document) (key : String) : (d.get key).size ≤ d.size := by
  cases hfield : d.field? key with
  | none =>
    rw [get, hfield]
    exact d.size_pos
  | some value => exact Nat.le_of_lt (size_get_lt hfield key)

theorem length_le_sizeItems (items : List Document) : items.length ≤ sizeItems items := by
  induction items with
  | nil => exact Nat.le_refl 0
  | cons d rest ih =>
    have := d.size_pos
    rw [List.length_cons, sizeItems]
    omega

/-- A value gives no more tokens than it has parts. -/
theorem length_identifiers_le (d : Document) : d.identifiers.length ≤ d.size := by
  cases d with
  | list items =>
    have hfilter := List.length_filterMap_le identifier? items
    have hitems := length_le_sizeItems items
    rw [identifiers, size]
    omega
  | null => exact Nat.zero_le _
  | _ => exact size_pos _

end Document

section

variable {s : Settings} {p : Placed}

theorem Piece.exists_readAll (pieces : List Piece)
    (h : ∀ key ∈ pieces.flatMap Piece.records, (p.node.get key).isRecord = true) :
    ∃ text, readAll p.node pieces = .ok text := by
  induction pieces with
  | nil => exact ⟨"", rfl⟩
  | cons piece rest ih =>
    rw [List.flatMap_cons, List.forall_mem_append] at h
    obtain ⟨after, hafter⟩ := ih h.2
    obtain ⟨here, hhere⟩ : ∃ text, piece.read p.node = .ok text := by
      cases piece with
      | inner key name =>
        have hrecord := Document.getIn_of_isRecord (h.1 key List.mem_cons_self) name
        exact ⟨_, by rw [read, hrecord]; rfl⟩
      | _ => exact ⟨_, rfl⟩
    exact ⟨here ++ after, by rw [readAll, hhere, hafter]; rfl⟩

/-- A token can be read if the fields that it needs have the right shape, and it gives no more
identifiers than the node has parts. -/
theorem Token.exists_read (t : Token) (hown : t.isOwn = true)
    (hlengths : ∀ key ∈ t.lengths, (p.node.get key).isListing = true)
    (hrecords : ∀ key ∈ t.records, (p.node.get key).isRecord = true) :
    ∃ texts, t.read s p = .ok texts ∧ texts.length ≤ p.node.size := by
  have hpos := p.node.size_pos
  induction t with
  | nothing => exact ⟨[], rfl, Nat.zero_le _⟩
  | text t => exact ⟨[t], rfl, hpos⟩
  | given value => cases hown
  | literal key => exact ⟨_, rfl, hpos⟩
  | field key =>
    exact ⟨_, rfl, Nat.le_trans (Document.length_identifiers_le _) (p.node.size_get_le key)⟩
  | composed pieces =>
    obtain ⟨text, htext⟩ := Piece.exists_readAll pieces hrecords
    exact ⟨[text], by rw [read, htext]; rfl, hpos⟩
  | inner key name =>
    have hrecord := hrecords key List.mem_cons_self
    refine ⟨_, by rw [read, Document.getIn_of_isRecord hrecord]; rfl, ?_⟩
    change (if ((p.node.get key).get name).truthy then ((p.node.get key).get name).identifiers
      else []).length ≤ _
    split
    · calc ((p.node.get key).get name).identifiers.length
          ≤ ((p.node.get key).get name).size := Document.length_identifiers_le _
        _ ≤ (p.node.get key).size := Document.size_get_le _ name
        _ ≤ p.node.size := p.node.size_get_le key
    · exact Nat.zero_le _
  | choose c yes no ihyes ihno =>
    rw [isOwn, Bool.and_eq_true] at hown
    rw [lengths, List.forall_mem_append, List.forall_mem_append] at hlengths
    rw [records, List.forall_mem_append] at hrecords
    obtain ⟨b, hb⟩ := c.exists_holds (s := s) hlengths.1
    rw [read, hb]
    cases b with
    | true =>
      refine ihyes hown.1 hlengths.2.1 fun key hkey => ?_
      -- What the condition has tested need not be known of the node.
      by_cases htested : c.ensures key = true
      · exact Condition.isRecord_of_ensures hb htested
      · exact hrecords.1 key (List.mem_filter.mpr ⟨hkey, by simpa using htested⟩)
    | false => exact ihno hown.2 hlengths.2.2 hrecords.2

theorem Token.exists_readAll (ts : List Token) (hown : ∀ t ∈ ts, t.isOwn = true)
    (hlengths : ∀ key ∈ ts.flatMap Token.lengths, (p.node.get key).isListing = true)
    (hrecords : ∀ key ∈ ts.flatMap Token.records, (p.node.get key).isRecord = true) :
    ∃ texts, readAll s p ts = .ok texts ∧ texts.length ≤ ts.length * p.node.size := by
  induction ts with
  | nil => exact ⟨[], rfl, Nat.zero_le _⟩
  | cons t rest ih =>
    rw [List.forall_mem_cons] at hown
    rw [List.flatMap_cons, List.forall_mem_append] at hlengths hrecords
    obtain ⟨here, hhere, hle⟩ := t.exists_read (s := s) hown.1 hlengths.1 hrecords.1
    obtain ⟨after, hafter, hle'⟩ := ih hown.2 hlengths.2 hrecords.2
    refine ⟨here ++ after, by rw [readAll, hhere, hafter]; rfl, ?_⟩
    rw [List.length_append, List.length_cons, Nat.succ_mul]
    omega

end

/-! ### Dependencies -/

namespace Document

theorem exists_templateValue {d : Document} (h : (d.get "quasis").isTemplate = true) :
    ∃ text, d.templateValue = .ok text := by
  unfold templateValue
  split
  · exact ⟨none, rfl⟩
  · cases hquasis : d.get "quasis" with
    | null => exact ⟨none, rfl⟩
    | list parts =>
      rw [hquasis, isTemplate, List.all_eq_true] at h
      refine exists_bind_eq_ok (a := parts.length) rfl ?_
      split
      case isTrue hone =>
        -- A text is read off a template only if it has a single part.
        obtain ⟨part, rfl⟩ := List.length_eq_one_iff.mp hone
        obtain ⟨hobject, hrecord⟩ := Bool.and_eq_true_iff.mp (h part List.mem_cons_self)
        refine exists_bind_eq_ok (a := part) rfl ?_
        cases part with
        | object fields =>
          exact exists_bind_eq_ok (getIn_of_isRecord hrecord "cooked") ⟨_, rfl⟩
        | _ => cases hobject
      case isFalse => exact ⟨none, rfl⟩
    | _ =>
      rw [hquasis] at h
      cases h

/-- The text that a value stands for can be read. A template is one only if it is a node. -/
theorem exists_stringValue {d : Document} (h : d.isNode → d.WellShaped) :
    ∃ text, d.stringValue = .ok text := by
  unfold stringValue
  split
  · split <;> exact ⟨_, rfl⟩
  · split <;> exact ⟨_, rfl⟩
  case h_3 hkind =>
    -- A value of the kind of a template is a node, so the shape of its parts is known.
    have hnode : d.isNode := by rw [isNode, hkind]; rfl
    exact exists_templateValue (h hnode).template
  case h_4 => exact ⟨none, rfl⟩

end Document

namespace Dependency

theorem exists_ofSource {node source : Document} (hnode : node.WellShaped)
    (hsource : source.isNode → source.WellShaped) (type : String) :
    ∃ found, ofSource node source type = .ok found := by
  obtain ⟨path, hpath⟩ := Document.exists_stringValue hsource
  obtain ⟨lines, hlines, -⟩ := Document.exists_lines?_of_isLocation hnode.location
  exact exists_bind_eq_ok hpath (exists_bind_eq_ok hlines ⟨_, rfl⟩)

/-- The first argument of a call, which is a child if it is a node. -/
theorem exists_first_argument {node : Document} (h : node.WellShaped)
    (hgiven : node.get "arguments" ≠ .null) :
    ∃ first, (node.get "arguments").first = .ok first ∧ (first.isNode → first.WellShaped) := by
  have hlisting := h.listing "arguments" (by decide)
  cases harguments : node.get "arguments" with
  | list items =>
    cases items with
    | nil => exact ⟨.null, rfl, fun hnode => by cases hnode⟩
    | cons first rest =>
      exact ⟨first, rfl, h.item (by decide) harguments List.mem_cons_self⟩
  | null => exact absurd harguments hgiven
  | _ =>
    rw [harguments] at hlisting
    cases hlisting

theorem exists_commonjs (s : Settings) {node : Document} (h : node.WellShaped)
    (hobject : node.requireObject = .ok ()) : ∃ found, commonjs s node = .ok found := by
  unfold commonjs
  split
  · exact ⟨none, rfl⟩
  · refine exists_bind_eq_ok hobject ?_
    dsimp only
    split
    · obtain ⟨n, hn⟩ := Document.exists_count_of_isListing (h.listing "arguments" (by decide))
      refine exists_bind_eq_ok hn ?_
      split
      case isTrue hone =>
        -- There is one argument, so the list of arguments is not missing.
        have hgiven : node.get "arguments" ≠ .null := by
          intro hnull
          rw [hnull, hone] at hn
          cases hn
        obtain ⟨first, hfirst, hshaped⟩ := exists_first_argument h hgiven
        obtain ⟨found, hfound⟩ := exists_ofSource h hshaped commonjsType
        exact exists_bind_eq_ok hfirst (exists_bind_eq_ok hfound ⟨_, rfl⟩)
      case isFalse => exact ⟨none, rfl⟩
    · exact ⟨none, rfl⟩

theorem exists_dynamicImport {node : Document} (h : node.WellShaped)
    (hobject : node.requireObject = .ok ()) : ∃ found, dynamicImport node = .ok found := by
  refine exists_bind_eq_ok hobject ?_
  dsimp only
  split
  case isTrue hcall =>
    have hgiven : node.get "arguments" ≠ .null := by
      intro hnull
      rw [hnull, Bool.and_eq_true] at hcall
      cases hcall.2
    obtain ⟨first, hfirst, hshaped⟩ := exists_first_argument h hgiven
    obtain ⟨found, hfound⟩ := exists_ofSource h hshaped esmType
    exact exists_bind_eq_ok hfirst (exists_bind_eq_ok hfound ⟨_, rfl⟩)
  case isFalse => exact ⟨none, rfl⟩

theorem exists_esm {node : Document} (h : node.WellShaped)
    (hobject : node.requireObject = .ok ()) : ∃ found, esm node = .ok found := by
  refine exists_bind_eq_ok hobject ?_
  dsimp only
  split
  · exact ⟨none, rfl⟩
  · have hsource : (node.get "source").isNode → (node.get "source").WellShaped :=
      h.get (by decide)
    obtain ⟨found, hfound⟩ := exists_ofSource h hsource esmType
    exact exists_bind_eq_ok hfound ⟨_, rfl⟩

end Dependency

theorem DependencyForm.exists_read (s : Settings) {node : Document} (h : node.WellShaped)
    (hobject : node.isObject = true) (form : DependencyForm) :
    ∃ found, form.read s node = .ok found := by
  have hrequire : node.requireObject = .ok () := if_pos hobject
  cases form with
  | source => exact Dependency.exists_esm h hrequire
  | call =>
    obtain ⟨found, hfound⟩ := Dependency.exists_commonjs s h hrequire
    refine exists_bind_eq_ok hfound ?_
    cases found with
    | some found => exact ⟨_, rfl⟩
    | none => exact Dependency.exists_dynamicImport h hrequire

/-! ### Rules -/

/-- The rule for a node of a well-shaped tree can be read there, and what it adds is bounded by the
size of the node. -/
theorem Rule.exists_read {kind : String} {rule : Rule} (hsuits : rule.suits kind = true)
    (s : Settings) {p : Placed} (hkind : p.node.kind? = some kind) (h : p.node.WellShaped) :
    ∃ c, rule.read s p = .ok c ∧ c.lloc.natAbs ≤ 2 ∧ c.cyclomatic.natAbs ≤ 2 ∧
      c.operators.length ≤ 8 * p.node.size ∧ c.operands.length ≤ 8 * p.node.size := by
  simp only [suits, Bool.and_eq_true, List.all_eq_true, decide_eq_true_eq] at hsuits
  obtain ⟨⟨⟨⟨hlengths, hrecords⟩, hlloc, hcyclomatic⟩, ⟨hoperators, hoperands⟩, hfew, hfew'⟩,
    hlisted, husable⟩ := hsuits
  -- What the rule asks for is what the shape of the node ensures.
  have hlisting : ∀ key ∈ rule.lengths, (p.node.get key).isListing = true := by
    intro key hkey
    rw [beq_iff_eq.mp (hlengths key hkey)]
    exact h.listing "elements" (by decide)
  have hrecord : ∀ key ∈ rule.records, (p.node.get key).isRecord = true := fun key hkey =>
    h.record (List.contains_iff_mem.mp (hrecords key hkey)) hkind
  simp only [lengths, List.forall_mem_append] at hlisting
  simp only [records, List.forall_mem_append] at hrecord
  obtain ⟨lloc, hlloc, hllocFew⟩ := Count.exists_read (s := s) hlloc hlisting.1
  obtain ⟨cyclomatic, hcyclomatic, hcyclomaticFew⟩ :=
    Count.exists_read (s := s) hcyclomatic hlisting.2.1
  obtain ⟨operators, hoperators, hoperatorsFew⟩ :=
    Token.exists_readAll (s := s) rule.operators hoperators hlisting.2.2.1 hrecord.1
  obtain ⟨operands, hoperands, hoperandsFew⟩ :=
    Token.exists_readAll (s := s) rule.operands hoperands hlisting.2.2.2.1 hrecord.2
  obtain ⟨dependency, hdependency⟩ : ∃ found, rule.dependencyAt s p.node = .ok found := by
    unfold dependencyAt
    cases rule.dependency with
    | none => exact ⟨none, rfl⟩
    | some form => exact form.exists_read s h (Document.isObject_of_kind? hkind)
  obtain ⟨ignored, hignored⟩ := Skip.exists_read (s := s) hlisted hlisting.2.2.2.2
  have hkeys : rule.lacksKeys p ignored = false := by
    rw [lacksKeys, husable]
    simp
  refine ⟨{ lloc, cyclomatic, operators, operands, dependency, ignored }, ?_, hllocFew,
    hcyclomaticFew, ?_, ?_⟩
  · rw [read_parts, hlloc, hcyclomatic, hoperators, hoperands, hdependency, hignored]
    exact if_neg (by simp [hkeys])
  · exact Nat.le_trans hoperatorsFew (Nat.mul_le_mul_right _ hfew)
  · exact Nat.le_trans hoperandsFew (Nat.mul_le_mul_right _ hfew')

end CodeMetrics
