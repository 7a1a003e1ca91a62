import CodeMetrics.Analyzer
import CodeMetrics.Proofs.Report.Totality
import CodeMetrics.Proofs.Rule.Shape
import CodeMetrics.Proofs.Traversal.Extension

/-!
# `CodeMetrics.Proofs.Traversal.Totality`: well-shaped trees have reports

A standard dialect can read every node of a well-shaped tree, and a node of an unknown kind is
passed over unless the settings are strict. So the recursion on such a tree has a result
(`exists_harvest`), and with it the traversal of a module (`exists_walk`).

What is left is the calculation of the measures, which fails only on counts that are too large.
`Yield.AtMost` bounds what a tree yields. A node adds at most a fixed multiple of its size, since
the tokens it names come from its own parts, and the nodes below are counted in that size once
more. Summing up gives a bound by the square of the size of the tree, far below what the
calculation can bear (`safe_build_extend`). A well-shaped module therefore has a report
(`report_of_wellShaped`).
-/

set_option autoImplicit false

namespace CodeMetrics

/-! ### Bounded yields -/

/-- A node has fewer parameters than parts. -/
theorem Document.length_parameters_lt (d : Document) : d.parameters.length < d.size := by
  have hsize := d.size_get_le "params"
  rw [parameters]
  cases hparams : d.get "params" with
  | list items =>
    have hitems := length_le_sizeItems items
    rw [hparams, size] at hsize
    dsimp only
    omega
  | _ => exact d.size_pos

/-- Lines whose numbers are below `2 ^ 53` in magnitude. -/
structure Lines.InRange (l : Lines Int) : Prop where
  first : l.first.natAbs < 2 ^ 53
  last : l.last.natAbs < 2 ^ 53

/-- A gain of at most `n` of everything. -/
structure Gain.AtMost (n : Nat) (g : Gain) : Prop where
  lines : g.lines.natAbs ≤ n
  paths : g.paths.natAbs ≤ n
  params : g.params.natAbs ≤ n
  operators : g.operators.length ≤ n
  operands : g.operands.length ≤ n

namespace Gain

variable {g h : Gain} {m n : Nat}

theorem atMost_zero : (0 : Gain).AtMost 0 := by
  constructor <;> decide

theorem AtMost.mono (hg : g.AtMost m) (hmn : m ≤ n) : g.AtMost n where
  lines := Nat.le_trans hg.lines hmn
  paths := Nat.le_trans hg.paths hmn
  params := Nat.le_trans hg.params hmn
  operators := Nat.le_trans hg.operators hmn
  operands := Nat.le_trans hg.operands hmn

theorem AtMost.add (hg : g.AtMost m) (hh : h.AtMost n) : (g + h).AtMost (m + n) where
  lines := Nat.le_trans (Int.natAbs_add_le _ _) (Nat.add_le_add hg.lines hh.lines)
  paths := Nat.le_trans (Int.natAbs_add_le _ _) (Nat.add_le_add hg.paths hh.paths)
  params := Nat.le_trans (Int.natAbs_add_le _ _) (Nat.add_le_add hg.params hh.params)
  operators := by
    rw [operators_add, List.length_append]
    exact Nat.add_le_add hg.operators hh.operators
  operands := by
    rw [operands_add, List.length_append]
    exact Nat.add_le_add hg.operands hh.operands

/-- Opening a function with fewer than `n` parameters. -/
theorem atMost_ofFunction {params : Nat} (h : params < n) : (ofFunction params).AtMost n where
  lines := Nat.zero_le _
  paths := Nat.lt_of_le_of_lt (Nat.zero_le _) h
  params := Nat.le_of_lt h
  operators := Nat.zero_le _
  operands := Nat.zero_le _

end Gain

/-- A function that gains at most `n` of everything. -/
structure FunctionYield.AtMost (n : Nat) (f : FunctionYield Gain) : Prop where
  gain : f.gain.AtMost n
  params : f.params.length ≤ n
  lines : f.lines.InRange

/-- A class that gains at most `n` of everything. -/
structure ClassYield.AtMost (n : Nat) (c : ClassYield Gain) : Prop where
  gain : c.gain.AtMost n
  methods : c.methods.length ≤ n
  lines : c.lines.InRange

theorem FunctionYield.AtMost.mono {f : FunctionYield Gain} {m n : Nat} (h : f.AtMost m)
    (hmn : m ≤ n) : f.AtMost n :=
  ⟨h.gain.mono hmn, Nat.le_trans h.params hmn, h.lines⟩

theorem ClassYield.AtMost.mono {c : ClassYield Gain} {m n : Nat} (h : c.AtMost m)
    (hmn : m ≤ n) : c.AtMost n :=
  ⟨h.gain.mono hmn, Nat.le_trans h.methods hmn, h.lines⟩

/-- A yield with at most `n` functions, where every scope gains at most `n` of everything. -/
structure Yield.AtMost (n : Nat) (y : Yield Gain) : Prop where
  total : y.total.AtMost n
  own : y.own.AtMost n
  member : y.member.AtMost n
  functions : ∀ f ∈ y.functions, f.AtMost n
  classes : ∀ c ∈ y.classes, c.AtMost n
  count : y.functions.length ≤ n
  methods : y.methods.length ≤ n

namespace Yield

variable {y z : Yield Gain} {m n : Nat}

theorem AtMost.mono (h : y.AtMost m) (hmn : m ≤ n) : y.AtMost n where
  total := h.total.mono hmn
  own := h.own.mono hmn
  member := h.member.mono hmn
  functions f hf := (h.functions f hf).mono hmn
  classes c hc := (h.classes c hc).mono hmn
  count := Nat.le_trans h.count hmn
  methods := Nat.le_trans h.methods hmn

theorem atMost_only {g : Gain} (h : g.AtMost n) (found : List (Dependency Int))
    (unknown : List (String × Diagnostic)) : (only g found unknown).AtMost n where
  total := h
  own := h
  member := h
  functions f hf := by cases hf
  classes c hc := by cases hc
  count := Nat.zero_le _
  methods := Nat.zero_le _

theorem AtMost.append (hy : y.AtMost m) (hz : z.AtMost n) : (y ++ z).AtMost (m + n) where
  total := hy.total.add hz.total
  own := hy.own.add hz.own
  member := hy.member.add hz.member
  functions := by
    rw [functions_append, List.forall_mem_append, List.forall_mem_map]
    refine ⟨fun f hf => (hy.functions f hf).mono (Nat.le_add_right m n), fun f hf => ?_⟩
    obtain ⟨hgain, hparams, hlines⟩ := (hz.functions f hf).mono (Nat.le_add_left n m)
    exact ⟨hgain, hparams, hlines⟩
  classes := by
    rw [classes_append, List.forall_mem_append, List.forall_mem_map]
    refine ⟨fun c hc => (hy.classes c hc).mono (Nat.le_add_right m n), fun c hc => ?_⟩
    obtain ⟨hgain, hmethods, hlines⟩ := (hz.classes c hc).mono (Nat.le_add_left n m)
    exact ⟨hgain, by simpa [ClassYield.shift] using hmethods, hlines⟩
  count := by
    rw [functions_append, List.length_append, List.length_map]
    exact Nat.add_le_add hy.count hz.count
  methods := by
    rw [methods_append, List.length_append, List.length_map]
    exact Nat.add_le_add hy.methods hz.methods

theorem AtMost.inFunction (h : y.AtMost m) {lines : Lines Int} (hlines : lines.InRange)
    (name : Option Document) {params : List Document} (hparams : params.length < n) :
    (y.inFunction (Gain.ofFunction params.length) name lines params).AtMost (n + m) where
  total := (Gain.atMost_ofFunction hparams).add h.total
  own := Gain.atMost_zero.mono (Nat.zero_le _)
  member := (Gain.atMost_ofFunction hparams).add h.member
  functions := by
    refine List.forall_mem_cons.mpr ⟨?_, List.forall_mem_map.mpr fun f hf => ?_⟩
    · exact ⟨h.own.mono (Nat.le_add_left m n), by dsimp only; omega, hlines⟩
    · obtain ⟨hgain, hparams, hlines⟩ := (h.functions f hf).mono (Nat.le_add_left m n)
      exact ⟨hgain, hparams, hlines⟩
  classes := by
    refine List.forall_mem_map.mpr fun c hc => ?_
    obtain ⟨hgain, hmethods, hlines⟩ := (h.classes c hc).mono (Nat.le_add_left m n)
    exact ⟨hgain, by simpa [ClassYield.nested] using hmethods, hlines⟩
  count := by
    have hcount := h.count
    simp only [Yield.inFunction, List.length_cons, List.length_map]
    omega
  methods := by
    simp only [Yield.inFunction, List.length_cons, List.length_nil]
    omega

theorem AtMost.inClass (h : y.AtMost n) {lines : Lines Int} (hlines : lines.InRange)
    (name superName : Option Document) : (y.inClass name superName lines).AtMost n where
  total := h.total
  own := h.own
  member := Gain.atMost_zero.mono (Nat.zero_le _)
  functions := h.functions
  classes := List.forall_mem_cons.mpr ⟨⟨h.member, h.methods, hlines⟩, h.classes⟩
  count := h.count
  methods := Nat.zero_le _

/-- A node that opens a scope has fewer parameters than parts. -/
theorem AtMost.enclose (h : y.AtMost m) {lines : Lines Int} (hlines : lines.InRange)
    (form : ScopeForm) (rule : Rule) (p : Placed) :
    (y.enclose Gain.ofFunction form rule p lines).AtMost (p.node.size + m) := by
  cases form with
  | classBody => exact (h.inClass hlines _ _).mono (Nat.le_add_left _ _)
  | function =>
    refine h.inFunction hlines _ ?_
    rw [List.length_map]
    exact p.node.length_parameters_lt

end Yield

/-! ### Harvesting a well-shaped tree -/

/-- Twice a part of a tree, squared, leaves room for the node above. -/
theorem square_bound {a b n : Nat} (h : a + b < n) :
    8 * n + (9 * a ^ 2 + (n + 9 * b ^ 2)) ≤ 9 * n ^ 2 := by
  obtain ⟨k, rfl⟩ := Nat.exists_eq_add_of_lt h
  nlinarith

namespace Dialect

variable {name : String} {d : Dialect} {s : Settings}

/-- A node of an unknown kind is met if unknown kinds are allowed. -/
theorem exists_ofUnknown (hstrict : s.on .strict = false) {node : Document}
    (h : node.WellShaped) : ∃ y, Yield.ofUnknown d s node = .ok y ∧ y.AtMost 0 := by
  obtain ⟨lines, hlines, -⟩ := Document.exists_lines?_of_isLocation h.location
  rw [Yield.ofUnknown, Walk.unknownKind, hlines]
  refine ⟨_, if_neg (by simp [hstrict]), Yield.atMost_only Gain.atMost_zero _ _⟩

/-- The children of a node can be harvested one after the other. -/
theorem exists_harvestAll (lines : Lines Int) (parent : Document) (cs : List Child)
    (h : ∀ c ∈ cs, ∃ y, d.harvest s lines (c.placed parent) = .ok y ∧
      y.AtMost (9 * c.node.size ^ 2)) :
    ∃ y, d.harvestAll s lines parent cs = .ok y ∧
      y.AtMost (9 * Document.sizeChildren cs ^ 2) := by
  induction cs with
  | nil =>
    rw [harvestAll]
    exact ⟨_, rfl, Yield.atMost_only Gain.atMost_zero _ _⟩
  | cons c rest ih =>
    rw [List.forall_mem_cons] at h
    obtain ⟨y, hy, hyMost⟩ := h.1
    obtain ⟨z, hz, hzMost⟩ := ih h.2
    rw [harvestAll, bind_eq_of_eq_ok hy, bind_eq_of_eq_ok hz]
    refine ⟨_, rfl, (hyMost.append hzMost).mono ?_⟩
    rw [Document.sizeChildren]
    nlinarith [Nat.zero_le (c.node.size * Document.sizeChildren rest)]

/-- A well-shaped tree can be harvested with the rules of a standard dialect. What it yields is
bounded by the square of its size, since a node adds as many tokens as it has parts. -/
theorem exists_harvest (standard : (name, d) ∈ Registry.standard.entries)
    (hstrict : s.on .strict = false) {p : Placed} (h : p.node.WellShaped) {lines : Lines Int}
    (hlines : lines.InRange) :
    ∃ y, d.harvest s lines p = .ok y ∧ y.AtMost (9 * p.node.size ^ 2) := by
  induction hsize : p.node.size using Nat.strongRecOn generalizing p lines with
  | ind size ih =>
    subst hsize
    -- The induction is on the size of the tree, since children come in selections that the
    -- structure of the tree does not show.
    have hall : ∀ (ignored : List String) (cs : List Child),
        (∀ c ∈ cs, c ∈ p.node.children ignored) → ∀ {lines : Lines Int}, lines.InRange →
          ∃ y, d.harvestAll s lines p.node cs = .ok y ∧
            y.AtMost (9 * Document.sizeChildren cs ^ 2) := by
      intro ignored cs hcs lines hlines
      refine exists_harvestAll lines p.node cs fun c hc => ?_
      exact ih c.node.size (Document.size_lt_of_mem_children (hcs c hc)) (h.child (hcs c hc))
        hlines rfl
    rw [harvest]
    cases hrule : d.ruleFor p.node with
    | none =>
      obtain ⟨y, hy, hyMost⟩ := exists_ofUnknown (d := d) hstrict h
      obtain ⟨z, hz, hzMost⟩ := hall [] _ (fun _ hc => hc) hlines
      have hlt := Document.sizeChildren_children_lt p.node []
      dsimp only
      rw [bind_eq_of_eq_ok hy, bind_eq_of_eq_ok hz]
      refine ⟨_, rfl, (hyMost.append hzMost).mono ?_⟩
      nlinarith
    | some rule =>
      obtain ⟨kind, hkind, hfind⟩ := Option.bind_eq_some_iff.mp hrule
      have hsuits := Rule.suits_standard _ standard _ (mem_of_find hfind)
      obtain ⟨c, hread, hlloc, hcyclomatic, hoperators, hoperands⟩ :=
        Rule.exists_read hsuits s hkind h
      have hpos := p.node.size_pos
      have hc : (Yield.ofContribution s c).AtMost (8 * p.node.size) :=
        Yield.atMost_only ⟨by dsimp only [Gain.ofContribution]; omega,
          by dsimp only [Gain.ofContribution]; omega, Nat.zero_le _, hoperators, hoperands⟩ _ _
      have hlt := Document.sizeChildren_children_lt p.node c.ignored
      dsimp only
      rw [bind_eq_of_eq_ok (by rw [hread]; rfl : (rule.read s p).mapError Error.fault = .ok c)]
      cases hopens : rule.opens with
      | none =>
        obtain ⟨z, hz, hzMost⟩ := hall c.ignored _ (fun _ hc => hc) hlines
        dsimp only
        rw [bind_eq_of_eq_ok hz]
        refine ⟨_, rfl, (hc.append hzMost).mono ?_⟩
        nlinarith
      | some form =>
        have hfilter : ∀ keep : Child → Bool, ∀ child ∈ (p.node.children c.ignored).filter keep,
            child ∈ p.node.children c.ignored := fun keep _ hc => (List.mem_filter.mp hc).1
        obtain ⟨own, hown, hownRange⟩ := Document.exists_lines?_of_isLocation h.location
        have hinner : (own.getD lines).InRange := by
          cases own with
          | none => exact hlines
          | some l => exact ⟨(hownRange l rfl).1, (hownRange l rfl).2⟩
        have hinside : (form.innerLines (own.getD lines) lines).InRange := by
          cases form with
          | classBody => exact hlines
          | function => exact hinner
        -- The children are met in two groups, which together are no larger than all of them.
        have hsplit := Task.sizeChildren_filter_add (fun c => rule.scopeKeys.contains c.key)
          (p.node.children c.ignored)
        obtain ⟨y, hy, hyMost⟩ := hall c.ignored _
          (hfilter fun c => rule.scopeKeys.contains c.key) hlines
        obtain ⟨z, hz, hzMost⟩ := hall c.ignored _
          (hfilter fun c => !rule.scopeKeys.contains c.key) hinside
        dsimp only
        rw [bind_eq_of_eq_ok hy,
          bind_eq_of_eq_ok (by rw [hown]; rfl : p.node.lines?.mapError Error.fault = .ok own),
          bind_eq_of_eq_ok hz]
        refine ⟨_, rfl, (hc.append (hyMost.append (hzMost.enclose hinner form rule p))).mono ?_⟩
        exact square_bound (by omega)

end Dialect

/-! ### Roots -/

namespace Dialect

variable {name : String} {d : Dialect} {root : Document}

/-- Giving a root the kind of a module makes it larger by one value at most. -/
theorem size_typedRoot_le (d : Dialect) (root : Document) :
    (d.typedRoot root).size ≤ root.size + 1 := by
  have hassign : ∀ fields : List (String × Document),
      Document.sizeFields (Document.assign "type" (.string d.rootKind) fields) ≤
        Document.sizeFields fields + 1 := by
    intro fields
    induction fields with
    | nil => exact Nat.le_refl _
    | cons field rest ih =>
      obtain ⟨key, value⟩ := field
      have hpos := value.size_pos
      rw [Document.assign, Document.sizeFields]
      split
      -- The kind that was there is replaced, and no value is smaller than a text.
      · have hkind : (Document.string d.rootKind).size = 1 := rfl
        rw [Document.sizeFields, hkind]
        omega
      · rw [Document.sizeFields]
        omega
  unfold typedRoot
  split
  · exact Nat.le_succ _
  · cases root with
    | object fields =>
      have := hassign fields
      rw [Document.set, Document.size, Document.size]
      omega
    | _ => exact Nat.le_succ _

theorem rootKind_standard : ∀ entry ∈ Registry.standard.entries, entry.2.rootKind = "Program" := by
  decide

/-- A well-shaped root stays one where it gets a kind, since no field of a module is read as a
record. -/
theorem wellShaped_typedRoot (standard : (name, d) ∈ Registry.standard.entries)
    (h : root.WellShaped) : (d.typedRoot root).WellShaped := by
  unfold typedRoot
  split
  · exact h
  · rw [rootKind_standard _ standard]
    cases root with
    | object fields =>
      have hget : ∀ key, "type" ≠ key →
          ((Document.object fields).set "type" (.string "Program")).get key =
            (Document.object fields).get key := by
        intro key hkey
        rw [Document.set, Document.get, Document.get, Document.field?, Document.field?,
          Document.lookup_assign, if_neg hkey]
      have hkind : ((Document.object fields).set "type" (.string "Program")).kind? =
          some "Program" := by
        rw [Document.set, Document.kind?, Document.field?, Document.lookup_assign, if_pos rfl]
      -- The kind is new, so the node is tested by it for the first time.
      refine .node ?_ fun c hc => ?_
      · have hshape := h.here
        simp only [Document.isShaped, Bool.and_eq_true, List.all_cons, List.all_nil,
          Bool.and_true] at hshape ⊢
        rw [hget "loc" (by decide), hget "elements" (by decide), hget "arguments" (by decide),
          hget "quasis" (by decide)]
        refine ⟨⟨⟨hshape.1.1.1, ?_⟩, hshape.1.2⟩, hshape.2⟩
        simp [Document.recordFields, Document.kindIn, hkind]
      · rw [Document.set, ← Document.children_childFields, Document.childFields_assign (by decide),
          Document.children_childFields] at hc
        exact h.child hc
    | _ => exact h

end Dialect

/-! ### Scopes -/

variable {b n : Nat}

/-- What was tallied since a scope was opened. -/
theorem TokenSummary.all_ofTally {tokens : List String} (h : tokens.length < 2 ^ b) :
    (ofTally ((tokens.foldl Tally.add {}).map Document.string)).All (Number.Within b) := by
  have htotal : (tokens.foldl Tally.add ({} : Tally String)).total = tokens.length := by
    rw [Tally.total_addAll]
    exact Nat.zero_add _
  have hdistinct := (Tally.positive_empty.addAll tokens).distinct_le_total
  refine ⟨?_, ?_⟩
  · change ((tokens.foldl Tally.add {}).map Document.string).total < 2 ^ b
    rw [Tally.total_map]
    omega
  · change ((tokens.foldl Tally.add {}).map Document.string).distinct < 2 ^ b
    rw [Tally.distinct_map]
    omega

/-- A scope that has gained at most `n` of everything since it was opened. -/
theorem Scope.modest_collect {scope : Scope Int String} {g : Gain} (hg : g.AtMost n)
    (hlines : scope.lines.InRange) (hlogical : scope.logical = 0)
    (hcyclomatic : scope.cyclomatic = 1) (hparams : scope.paramCount.natAbs ≤ n)
    (hoperators : scope.operators = {}) (hoperands : scope.operands = {})
    (hb : 2 * n + 1 < 2 ^ b) : ((scope.collect g).map Number.int Document.string).Modest b where
  first := hlines.first
  last := hlines.last
  logical := by
    have := hg.lines
    change (scope.logical + g.lines).natAbs < 2 ^ b
    omega
  whole := ⟨_, rfl⟩
  cyclomatic := by
    have := hg.paths
    change (scope.cyclomatic + g.paths).natAbs < 2 ^ b
    omega
  paramCount := by
    have := hg.params
    change (scope.paramCount + g.params).natAbs < 2 ^ b
    omega
  operators := by
    have := hg.operators
    rw [map, collect, hoperators]
    exact TokenSummary.all_ofTally (by omega)
  operands := by
    have := hg.operands
    rw [map, collect, hoperands]
    exact TokenSummary.all_ofTally (by omega)

/-! ### Reports -/

namespace Dialect

variable {name : String} {d : Dialect} {s : Settings} {tree : Document}

/-- A well-shaped module can be traversed, and what it yields is bounded by the square of its
size. -/
theorem exists_walk (standard : (name, d) ∈ Registry.standard.entries)
    (hstrict : s.on .strict = false) (valid : d.validateRoot tree = .ok ())
    (shaped : tree.WellShaped) :
    ∃ lines y, d.walk s tree = .ok ({ tree := ScopeTree.start lines : Walk }.extend y) ∧
      lines.InRange ∧ y.AtMost (9 * (tree.size + 1) ^ 2) := by
  obtain ⟨lines, hlines⟩ := exists_lines_of_valid valid
  obtain ⟨found, hfound, hrange⟩ := Document.exists_lines?_of_isLocation shaped.location
  obtain rfl : found = some lines := Except.ok.inj (hfound.symm.trans hlines)
  have hinRange : lines.InRange := ⟨(hrange lines rfl).1, (hrange lines rfl).2⟩
  obtain ⟨y, hy, hmost⟩ := exists_harvest (p := { node := d.typedRoot tree }) standard hstrict
    (wellShaped_typedRoot standard shaped) hinRange
  refine ⟨lines, y, ?_, hinRange, hmost.mono ?_⟩
  · rw [walk_eq_extend, bind_eq_of_eq_ok (by rw [hlines]; rfl :
      tree.lines?.mapError Error.fault = .ok (some lines))]
    dsimp only
    rw [bind_eq_of_eq_ok hy]
    rfl
  · have hsize := d.size_typedRoot_le tree
    exact Nat.mul_le_mul_left 9 (Nat.pow_le_pow_left hsize 2)

/-- The report on the scopes of a module needs no division by zero, and it is there unless some
count does not fit. -/
theorem safe_build_extend {lines : Lines Int} {y : Yield Gain} (hlines : lines.InRange)
    (hmost : y.AtMost n) (s : Settings) (dependencies : List (Dependency Document))
    (errors : List Diagnostic) :
    Safe (2 * n + 1 < 2 ^ 200) (fun _ => True)
      (Report.build s (((ScopeTree.start lines).extend y).map Number.int Document.string)
        dependencies errors) := by
  -- The bound on the yield covers every part of it: the module, the functions, the classes and how
  -- many there are.
  refine Report.safe_build (b := 200) (fun fits => ?_) (fun fits => ?_) (fun fits => ?_)
    (fun fits => ?_) (by decide) (by decide)
  · exact Scope.modest_collect hmost.total hlines rfl rfl (Nat.zero_le _) rfl rfl fits
  · refine List.forall_mem_map.mpr fun scope hscope => ?_
    rw [functions_extend_start] at hscope
    obtain ⟨f, hf, index, anonymous, rfl⟩ := FunctionYield.exists_of_mem_scopes hscope
    have hgain := hmost.functions f hf
    exact Scope.modest_collect hgain.gain hgain.lines rfl rfl hgain.params rfl rfl fits
  · refine List.forall_mem_map.mpr fun scope hscope => ?_
    rw [classes_extend_start] at hscope
    obtain ⟨c, hc, index, rfl⟩ := ClassYield.exists_of_mem_scopes hscope
    have hgain := hmost.classes c hc
    have hmethods := hgain.methods
    refine ⟨Scope.modest_collect hgain.gain hgain.lines rfl rfl (Nat.zero_le _) rfl rfl fits, ?_⟩
    change (c.methods.map (0 + · + 1)).length + 1 < 2 ^ 200
    rw [List.length_map]
    omega
  · have hcount := hmost.count
    change (((ScopeTree.start lines).extend y).functions.map _).length + 1 < 2 ^ 200
    rw [List.length_map, ScopeTree.length_functions_extend]
    change 0 + y.functions.length + 1 < 2 ^ 200
    omega

/-- The methods of a class are among the functions of the module. -/
theorem methods_extend_start {lines : Lines Int} {y : Yield Gain} {c : ClassScope Int String}
    (hc : c ∈ ((ScopeTree.start lines).extend y).classes) {i : Nat} (hi : i ∈ c.methods) :
    0 < i ∧ i ≤ ((ScopeTree.start lines).extend y).functions.length := by
  rw [classes_extend_start] at hc
  obtain ⟨e, he, index, rfl⟩ := ClassYield.exists_of_mem_scopes hc
  obtain ⟨j, hj, rfl⟩ := List.mem_map.mp hi
  have hlt := y.classMethods_lt e he j hj
  rw [ScopeTree.length_functions_extend]
  omega

/-- The analysis of a module that was traversed is the report on its scopes. -/
theorem analyze_of_walk {w : Walk} (valid : d.validateRoot tree = .ok ())
    (done : d.walk s tree = .ok w) :
    d.analyze s tree =
      (Report.build s (w.tree.map Number.int Document.string)
        (w.dependencies.map (·.map Document.int)) w.errors).mapError
          fun cause => .fault (.arithmetic cause) := by
  rw [analyze, bind_eq_of_eq_ok valid, measure, bind_eq_of_eq_ok done]

/-- The analysis of a well-shaped module has a report unless the module is absurdly large. -/
theorem analyze_of_wellShaped (standard : (name, d) ∈ Registry.standard.entries)
    (hstrict : s.on .strict = false) (valid : d.validateRoot tree = .ok ())
    (shaped : tree.WellShaped) :
    (∃ report, d.analyze s tree = .ok report) ∨
      2 ^ 96 ≤ tree.size ∧ ∃ cause, cause ≠ .divisionByZero ∧
        d.analyze s tree = .error (.fault (.arithmetic cause)) := by
  obtain ⟨lines, y, done, hlines, hmost⟩ := exists_walk standard hstrict valid shaped
  rw [analyze_of_walk valid done, Walk.tree_extend]
  rcases (safe_build_extend hlines hmost s _ _).exists_or with
    ⟨report, hreport⟩ | ⟨hlarge, cause, hcause, hfailed⟩
  · rw [hreport]
    exact .inl ⟨report, rfl⟩
  · rw [hfailed]
    refine .inr ⟨?_, cause, hcause, rfl⟩
    by_contra hsmall
    -- A tree below the bound has counts below the square of it, with some bits to spare.
    have hsquare : (tree.size + 1) ^ 2 ≤ (2 ^ 96) ^ 2 := Nat.pow_le_pow_left (by omega) 2
    omega

/-- A well-shaped module that is not absurdly large has a report. The shape is tested down to a
depth, so that it can be evaluated. -/
theorem exists_report_of_isShapedTo {depth : Nat} (standard : (name, d) ∈ Registry.standard.entries)
    (hstrict : s.on .strict = false) (valid : d.validateRoot tree = .ok ())
    (shaped : tree.isShapedTo depth = true) (small : tree.size < 2 ^ 96) :
    ∃ report, d.analyze s tree = .ok report := by
  rcases analyze_of_wellShaped standard hstrict valid (Document.wellShaped_of_isShapedTo shaped) with
    hreport | ⟨hlarge, -⟩
  · exact hreport
  · exact absurd hlarge (Nat.not_le_of_lt small)

end Dialect

namespace Sample

/-- A module with a class whose method has a template, and with a node of an unknown kind that has
a private name among its elements. -/
def wellShaped : Document :=
  node "Program"
    [("body", .list
      [classWith "Counter" "label" (function [name "unit"]
        [node "TemplateLiteral"
          [("quasis", .list
            [node "TemplateElement" [("value", .object [("cooked", .string "per ")])],
             node "TemplateElement" []]),
           ("expressions", .list
            [node "MetaProperty" [("meta", name "new"), ("property", name "target")]])]]),
       node "Pipeline"
        [("loc", .object [("start", .null)]), ("arguments", .null),
         ("elements", .list [.null, .int 3, node "PrivateName" [("id", name "count")]])]]),
     ("loc", location)]

end Sample

end CodeMetrics
