import CodeMetrics.Proofs.Dialect.TranslatedName
import CodeMetrics.Proofs.Rule.Parent
import CodeMetrics.Proofs.Traversal.Concatenation

/-!
# `CodeMetrics.Proofs.Traversal.FreeImport`: imports that count for nothing

Where the tokens and lines of modules are not counted, an import adds nothing of its own but a
dependency, and the names and the source that it mentions are passed over. The same goes for an
export of a whole module. Nodes under any other key of the statement are visited like all others,
though, and the attributes of an import are such nodes.

So taking the statement out of a program changes no count, as long as those nodes are left in its
place (`Dialect.imports_free`). A program is the root of a tree, or it stands in a file
(`Frame.around`). Neither of them, nor the statement itself, makes a difference to the nodes that
stand in it, which is what `CodeMetrics.Proofs.Rule.Parent` is about.

What the traversals have in common is said of yields first: the second one has the same dependencies
and some more in between (`Yield.Inserts`). It stays so when other yields come before and after.
-/

set_option autoImplicit false

namespace CodeMetrics

/-! ### More dependencies -/

namespace Yield

/-- The yield with other dependencies. -/
def finding (found : List (Dependency Int)) (y : Yield Gain) : Yield Gain :=
  { y with found }

/-- The second yield is the first one with more dependencies at some place. -/
def Inserts (more : List (Dependency Int)) (y z : Yield Gain) : Prop :=
  ∃ before after, y.found = before ++ after ∧ z = y.finding (before ++ more ++ after)

namespace Inserts

variable {more : List (Dependency Int)} {y z : Yield Gain}

/-- The dependencies may come first. -/
theorem of_only (more : List (Dependency Int)) (y : Yield Gain) :
    y.Inserts more (.only 0 more ++ y) := by
  refine ⟨[], y.found, rfl, ?_⟩
  ext1 <;> simp [finding]

theorem append_left (h : y.Inserts more z) (x : Yield Gain) : (x ++ y).Inserts more (x ++ z) := by
  obtain ⟨before, after, hfound, rfl⟩ := h
  refine ⟨x.found ++ before, after, ?_, ?_⟩
  · simp [hfound]
  · ext1 <;> simp [finding]

theorem append_right (h : y.Inserts more z) (x : Yield Gain) : (y ++ x).Inserts more (z ++ x) := by
  obtain ⟨before, after, hfound, rfl⟩ := h
  refine ⟨before, after ++ x.found, ?_, ?_⟩
  · simp [hfound]
  · ext1 <;> simp [finding]

end Inserts

end Yield

/-! ### Parents that make no difference -/

namespace Dialect

variable {name : String} {d : Dialect} {s : Settings} {lines : Lines Int}

/-- Children yield the same in two nodes of neutral kinds. It does not matter under which keys they
stand. -/
theorem harvestAll_of_neutral (standard : (name, d) ∈ Registry.standard.entries) {a b : Document}
    (ha : a.kindIn neutralKinds) (hb : b.kindIn neutralKinds) {cs cs' : List Child}
    (h : cs'.map Child.node = cs.map Child.node) :
    d.harvestAll s lines b cs' = d.harvestAll s lines a cs := by
  induction cs generalizing cs' with
  | nil =>
    rw [List.map_nil, List.map_eq_nil_iff] at h
    rw [h, harvestAll, harvestAll]
  | cons c rest ih =>
    obtain ⟨c', rest', rfl, hnode, hrest⟩ := List.map_eq_cons_iff.mp h
    have hfirst : d.harvest s lines (c'.placed b) = d.harvest s lines (c.placed a) := by
      apply harvest_congr (p := c.placed a) (q := c'.placed b) hnode
      · intro rule hrule
        exact Registry.read_of_neutral standard hnode ha hb hrule
      · rw [Placed.bindingName?_of_neutral hb, Placed.bindingName?_of_neutral ha]
    rw [harvestAll, harvestAll, hfirst, ih hrest]

end Dialect

/-! ### Statements that refer to a module -/

/-- The statements that refer to another module as a whole, by their kinds, and the keys of each
that are passed over where the tokens of modules are not counted. -/
def Estree.referenceKeys : List (String × List String) :=
  [("ImportDeclaration", ["specifiers", "source"]),
   ("ExportAllDeclaration", ["exported", "source"])]

/-- A kind that ESTree has is read by its rule there in all standard dialects. -/
theorem Registry.rule?_of_shared {name : String} {d : Dialect}
    (standard : (name, d) ∈ standard.entries) {kind : String} (h : Babel.isShared kind) :
    d.rule? kind = Estree.dialect.rule? kind := by
  rcases List.mem_cons.mp standard with heq | hrest
  · cases heq
    rfl
  · cases List.mem_singleton.mp hrest
    exact Babel.rule?_of_shared h

section

variable {name : String} {d : Dialect} {s : Settings} {kind : String} {keys : List String}

/-- A statement that refers to a module adds nothing but its dependency, where modules are not
counted, and passes over the keys that say what it refers to. -/
theorem Registry.read_reference (standard : (name, d) ∈ standard.entries)
    (htokens : s.on .esmHalstead = false) (hlines : s.on .esmLloc = false)
    (hkeys : (kind, keys) ∈ Estree.referenceKeys) {p : Placed} (hkind : p.node.kind? = some kind) :
    ∃ rule, d.ruleFor p.node = some rule ∧ rule.opens = none ∧
      rule.read s p = (do
        let dependency ← Dependency.esm p.node
        return ⟨0, 0, [], [], dependency, keys⟩) := by
  have hrule : ∀ rule, Estree.dialect.rule? kind = some rule → d.ruleFor p.node = some rule := by
    intro rule hrule
    have hshared : Babel.isShared kind := by rw [Babel.isShared, Dialect.defines, hrule]; rfl
    rw [Dialect.ruleFor, hkind, Option.bind_some, rule?_of_shared standard hshared, hrule]
  simp only [Estree.referenceKeys, List.mem_cons, List.not_mem_nil, or_false,
    Prod.mk.injEq] at hkeys
  rcases hkeys with ⟨rfl, rfl⟩ | ⟨rfl, rfl⟩
  all_goals
    refine ⟨_, hrule _ rfl, rfl, ?_⟩
    simp only [Rule.read_parts, Estree.moduleLine, Estree.moduleToken, Estree.moduleSkip,
      Token.when, Count.read, Token.readAll, Token.read, Skip.read, Condition.holds, htokens,
      hlines]
    rfl

/-- So it yields what its other children yield, after its dependency. -/
theorem Dialect.harvest_reference (standard : (name, d) ∈ Registry.standard.entries)
    (htokens : s.on .esmHalstead = false) (hlines : s.on .esmLloc = false)
    (hkeys : (kind, keys) ∈ Estree.referenceKeys) {p : Placed} (hkind : p.node.kind? = some kind)
    (lines : Lines Int) :
    d.harvest s lines p = (do
      let dependency ← (Dependency.esm p.node).mapError .fault
      let below ← d.harvestAll s lines p.node (p.node.children keys)
      return .only 0 (dependency.map (·.resolved s)).toList ++ below) := by
  obtain ⟨rule, hrule, hopens, hread⟩ := Registry.read_reference standard htokens hlines hkeys hkind
  rw [harvest]
  simp only [hrule, hopens, hread]
  cases Dependency.esm p.node <;> rfl

end

/-! ### Programs and files -/

/-- The kinds of nodes that hold the statements of a module, directly or not. -/
def containerKinds : List String := ["Program", "File"]

theorem neutral_of_container {node : Document} (h : node.kindIn containerKinds) :
    node.kindIn neutralKinds := by
  have hneutral : ∀ kind ∈ containerKinds, kind ∈ neutralKinds := by decide
  obtain ⟨kind, hkind, hnode⟩ := Document.kindIn_iff.mp h
  exact Document.kindIn_iff.mpr ⟨kind, hneutral kind hkind, hnode⟩

namespace Dialect

variable {name : String} {d : Dialect} {s : Settings} {lines : Lines Int}

/-- What a container yields besides its children: nothing, or the record of its unknown kind. -/
def containerYield (d : Dialect) (s : Settings) (node : Document) : Except Error (Yield Gain) :=
  match d.ruleFor node with
  | none => Yield.ofUnknown d s node
  | some _ => .ok (.only 0)

/-- That depends on the kind of the container and on its lines. -/
theorem containerYield_congr {a b : Document} (hkind : b.kind? = a.kind?)
    (hlines : b.lines? = a.lines?) : d.containerYield s b = d.containerYield s a := by
  simp only [containerYield, ruleFor, Yield.ofUnknown, Walk.unknownKind, Walk.reportedKind, hkind,
    hlines]

/-- A container is unknown, or it has the rule that adds nothing. -/
theorem ruleFor_container (standard : (name, d) ∈ Registry.standard.entries) {node : Document}
    (h : node.kindIn containerKinds) : d.ruleFor node = none ∨ d.ruleFor node = some {} := by
  obtain ⟨kind, hkind, hnode⟩ := Document.kindIn_iff.mp h
  rw [ruleFor, hnode, Option.bind_some]
  simp only [containerKinds, List.mem_cons, List.not_mem_nil, or_false] at hkind
  rcases hkind with rfl | rfl
  · rw [Registry.rule?_of_shared standard (by decide)]
    exact .inr rfl
  · -- A file is a kind of Babel alone.
    rcases List.mem_cons.mp standard with heq | hrest
    · cases heq
      exact .inl rfl
    · cases List.mem_singleton.mp hrest
      exact .inr (Babel.rule?_own rfl)

/-- A container yields what its children yield, after what it yields besides. -/
theorem harvest_container (standard : (name, d) ∈ Registry.standard.entries) {p : Placed}
    (h : p.node.kindIn containerKinds) :
    d.harvest s lines p = (do
      let own ← d.containerYield s p.node
      let below ← d.harvestAll s lines p.node (p.node.children [])
      return own ++ below) := by
  rw [harvest]
  rcases ruleFor_container standard h with hrule | hrule
  · simp only [containerYield, hrule]
  · simp only [containerYield, hrule]
    rfl

/-- Two containers that differ in some of their children only. Where more dependencies are found at
those, more are found in the whole. -/
theorem harvest_splice (standard : (name, d) ∈ Registry.standard.entries) {p q : Placed}
    (hcontainer : p.node.kindIn containerKinds) (hkind : q.node.kind? = p.node.kind?)
    (hlines : q.node.lines? = p.node.lines?) {before here here' after : List Child}
    (hp : p.node.children [] = before ++ here ++ after)
    (hq : q.node.children [] = before ++ here' ++ after) {more : List (Dependency Int)}
    (h : Agree (Yield.Inserts more) (d.harvestAll s lines p.node here)
      (d.harvestAll s lines q.node here')) :
    Agree (Yield.Inserts more) (d.harvest s lines p) (d.harvest s lines q) := by
  have hcontainer' : q.node.kindIn containerKinds := by
    rwa [Document.kindIn, hkind]
  have hsame : ∀ cs : List Child,
      d.harvestAll s lines q.node cs = d.harvestAll s lines p.node cs := fun cs =>
    harvestAll_of_neutral standard (neutral_of_container hcontainer)
      (neutral_of_container hcontainer') rfl
  rw [harvest_container standard hcontainer, harvest_container standard hcontainer',
    containerYield_congr hkind hlines, hp, hq]
  -- Now both sides have the same steps but for the children in the middle.
  simp only [harvestAll_append, hsame before, hsame after, bind_assoc, pure_bind]
  apply Agree.bind_same
  intro own
  apply Agree.bind_same
  intro first
  apply h.bind
  intro middle middle' hmiddle
  apply Agree.bind_same
  intro last
  exact .ok (((hmiddle.append_left first).append_right last).append_left own)

/-- What can be traversed as a whole can be traversed in each child. -/
theorem exists_harvest_child (standard : (name, d) ∈ Registry.standard.entries) {p : Placed}
    (hcontainer : p.node.kindIn containerKinds) {y : Yield Gain} (h : d.harvest s lines p = .ok y)
    {c : Child} (hc : c ∈ p.node.children []) :
    ∃ z, d.harvest s lines (c.placed p.node) = .ok z := by
  rw [harvest_container standard hcontainer] at h
  obtain ⟨own, -, h⟩ := exists_of_bind_eq_ok h
  obtain ⟨below, hbelow, -⟩ := exists_of_bind_eq_ok h
  obtain ⟨before, after, hsplit⟩ := List.append_of_mem hc
  rw [hsplit, harvestAll_append] at hbelow
  obtain ⟨first, -, hbelow⟩ := exists_of_bind_eq_ok hbelow
  obtain ⟨rest, hrest, -⟩ := exists_of_bind_eq_ok hbelow
  rw [harvestAll] at hrest
  obtain ⟨z, hz, -⟩ := exists_of_bind_eq_ok hrest
  exact ⟨z, hz⟩

end Dialect

/-! ### Programs with and without a statement -/

/-- What stands around a program in a tree: nothing, or a file. -/
inductive Frame where
  | bare
  | file (before after : List (String × Document))

/-- The tree of a program. -/
def Frame.around (program : Document) : Frame → Document
  | .bare => program
  | .file before after => .object (before ++ ("program", program) :: after)

/-- A file says that it is one. -/
def Frame.Fits : Frame → Prop
  | .bare => True
  | .file before after =>
    (Document.object (before ++ ("program", .null) :: after)).kind? = some "File"

/-- Two walks that differ in nothing but their dependencies, of which the second one has more at
some place. -/
structure Walk.Inserts (more : List (Dependency Int)) (v w : Walk) : Prop where
  tree : w.tree = v.tree
  errors : w.errors = v.errors
  unsupported : w.unsupported = v.unsupported
  found : ∃ before after, v.found = before ++ after ∧ w.found = before ++ more ++ after

section

open Document Estree

variable {name : String} {d : Dialect} {s : Settings} {kind : String} {keys : List String}
  {before after : List (String × Document)} {first second : List Document} {statement : Document}

/-- A program as a container, whatever its statements are. -/
theorem container_program (hprogram : (program before after []).kind? = some "Program")
    (body : List Document) : (program before after body).kindIn containerKinds := by
  apply kindIn_iff.mpr
  exact ⟨"Program", List.mem_cons_self, (kind?_program body).trans hprogram⟩

/-- The children of a program, of which some are statements. -/
theorem children_program_split (body : List Document) :
    (program before after body).children [] =
      (object before).children [] ++ statements body ++ (object after).children [] :=
  children_split (by decide) _

/-- What the statement leaves when it is taken out of a program, as statements. -/
theorem node_statements_rest (ignored : List String) :
    (statements ((statement.children ignored).map Child.node)).map Child.node =
      (statement.children ignored).map Child.node := by
  have hnodes : ∀ node ∈ (statement.children ignored).map Child.node, node.isNode := by
    intro node hnode
    obtain ⟨c, hc, rfl⟩ := List.mem_map.mp hnode
    exact isNode_of_mem_children hc
  rw [statements, List.filter_eq_self.mpr hnodes, List.map_map]
  exact List.map_id _

/-- A program without the statement yields the same but for the dependency. -/
theorem Dialect.harvest_without_reference (standard : (name, d) ∈ Registry.standard.entries)
    (htokens : s.on .esmHalstead = false) (hlloc : s.on .esmLloc = false)
    (hkeys : (kind, keys) ∈ referenceKeys) (hkind : statement.kind? = some kind)
    {dependency : Option (Dependency Int)} (readable : Dependency.esm statement = .ok dependency)
    (hprogram : (program before after []).kind? = some "Program") {lines : Lines Int}
    {p q : Placed}
    (hp : p.node = program before after
      (first ++ ((statement.children keys).map Child.node ++ second)))
    (hq : q.node = program before after (first ++ statement :: second)) :
    Agree (Yield.Inserts (dependency.map (·.resolved s)).toList) (d.harvest s lines p)
      (d.harvest s lines q) := by
  have hcontainer : p.node.kindIn containerKinds := hp ▸ container_program hprogram _
  have hnode : statement.isNode := by rw [isNode, hkind]; rfl
  have hkinds : q.node.kind? = p.node.kind? := by
    rw [hp, hq, kind?_program, kind?_program (first ++ _)]
  have hlines : q.node.lines? = p.node.lines? := by
    rw [hp, hq, lines?_program, lines?_program (first ++ _)]
  have hwithout : p.node.children [] = ((object before).children [] ++ statements first) ++
      statements ((statement.children keys).map Child.node) ++
        (statements second ++ (object after).children []) := by
    rw [hp, children_program_split, statements_append, statements_append]
    simp only [List.append_assoc]
  have hwith : q.node.children [] = ((object before).children [] ++ statements first) ++
      [⟨"body", false, statement⟩] ++ (statements second ++ (object after).children []) := by
    rw [hq, children_program_split, statements_append]
    simp [statements, hnode]
  apply harvest_splice standard hcontainer hkinds hlines hwithout hwith
  -- The children that the statement leaves yield the same in the statement and in the program.
  have hneutral : ∀ entry ∈ referenceKeys, entry.1 ∈ neutralKinds := by decide
  have hstatement : statement.kindIn neutralKinds :=
    kindIn_iff.mpr ⟨kind, hneutral _ hkeys, hkind⟩
  rw [harvestAll_of_neutral standard hstatement (neutral_of_container hcontainer)
    (node_statements_rest keys), harvestAll_singleton,
    harvest_reference standard htokens hlloc hkeys hkind]
  show Agree _ _ ((Dependency.esm statement).mapError Error.fault >>= _)
  rw [readable]
  show Agree _ _ (d.harvestAll s lines statement (statement.children keys) >>= _)
  cases d.harvestAll s lines statement (statement.children keys) with
  | error e => exact .error e
  | ok y => exact .ok (.of_only _ y)

namespace Frame

/-- The kind and the lines of a tree do not depend on the statements of the program. -/
theorem field?_around (frame : Frame) {key : String} (hbody : key ≠ "body")
    (hfile : key ≠ "program") (before after : List (String × Document))
    (body body' : List Document) :
    (frame.around (program before after body)).field? key =
      (frame.around (program before after body')).field? key := by
  cases frame with
  | bare => exact field?_of_ne hbody _ _
  | file outer outer' => exact field?_of_ne hfile _ _

theorem kind?_around (frame : Frame) (before after : List (String × Document))
    (body body' : List Document) :
    (frame.around (program before after body)).kind? =
      (frame.around (program before after body')).kind? := by
  rw [kind?, frame.field?_around (by decide) (by decide) before after body body', kind?]

theorem lines?_around (frame : Frame) (before after : List (String × Document))
    (body body' : List Document) :
    (frame.around (program before after body)).lines? =
      (frame.around (program before after body')).lines? := by
  have hloc : (frame.around (program before after body)).get "loc" =
      (frame.around (program before after body')).get "loc" := by
    rw [Document.get, frame.field?_around (by decide) (by decide) before after body body',
      Document.get]
  rw [lines?, hloc, lines?]

/-- The root of a tree is a container. -/
theorem container_around {frame : Frame} (fits : frame.Fits)
    (hprogram : (program before after []).kind? = some "Program") (body : List Document) :
    (frame.around (program before after body)).kindIn containerKinds := by
  cases frame with
  | bare => exact container_program hprogram body
  | file outer outer' =>
    apply kindIn_iff.mpr
    refine ⟨"File", by decide, ?_⟩
    rw [around, kind?, field?_of_ne (by decide) _ .null]
    exact fits

/-- A file has its program as a child. -/
theorem children_file {outer outer' : List (String × Document)}
    (hprogram : (program before after []).kind? = some "Program") (body : List Document) :
    ((file outer outer').around (program before after body)).children [] =
      (object outer).children [] ++ [⟨"program", true, program before after body⟩] ++
        (object outer').children [] := by
  have hnode : (program before after body).isNode := by
    rw [isNode, kind?_program, hprogram]
    rfl
  have hat : childrenAt "program" (program before after body) =
      [⟨"program", true, program before after body⟩] := if_pos hnode
  rw [around, children_split (by decide), hat]

end Frame

/-- So does a tree without the statement. -/
theorem Dialect.harvest_around_without_reference
    (standard : (name, d) ∈ Registry.standard.entries)
    (htokens : s.on .esmHalstead = false) (hlloc : s.on .esmLloc = false)
    (hkeys : (kind, keys) ∈ referenceKeys) (hkind : statement.kind? = some kind)
    {dependency : Option (Dependency Int)} (readable : Dependency.esm statement = .ok dependency)
    {frame : Frame} (fits : frame.Fits)
    (hprogram : (program before after []).kind? = some "Program") (lines : Lines Int) :
    Agree (Yield.Inserts (dependency.map (·.resolved s)).toList)
      (d.harvest s lines { node := frame.around (program before after
        (first ++ ((statement.children keys).map Child.node ++ second))) })
      (d.harvest s lines { node := frame.around (program before after
        (first ++ statement :: second)) }) := by
  cases frame with
  | bare =>
    exact harvest_without_reference standard htokens hlloc hkeys hkind readable hprogram rfl rfl
  | file outer outer' =>
    apply harvest_splice standard (Frame.container_around fits hprogram _)
      (Frame.kind?_around (.file outer outer') before after _ _)
      (Frame.lines?_around (.file outer outer') before after _ _)
      (Frame.children_file hprogram _) (Frame.children_file hprogram _)
    rw [harvestAll_singleton, harvestAll_singleton]
    exact harvest_without_reference standard htokens hlloc hkeys hkind readable hprogram rfl rfl

/-- A tree that can be traversed has a dependency that can be read, or none, at the statement. -/
theorem Dialect.exists_dependency (standard : (name, d) ∈ Registry.standard.entries)
    (htokens : s.on .esmHalstead = false) (hlloc : s.on .esmLloc = false)
    (hkeys : (kind, keys) ∈ referenceKeys) (hkind : statement.kind? = some kind)
    {frame : Frame} (fits : frame.Fits)
    (hprogram : (program before after []).kind? = some "Program") {lines : Lines Int}
    {y : Yield Gain}
    (h : d.harvest s lines { node := frame.around (program before after
      (first ++ statement :: second)) } = .ok y) :
    ∃ dependency, Dependency.esm statement = .ok dependency := by
  have hnode : statement.isNode := by rw [isNode, hkind]; rfl
  have hmem : ⟨"body", false, statement⟩ ∈
      (program before after (first ++ statement :: second)).children [] := by
    rw [children_program_split]
    simp [statements, hnode]
  -- The dependency is the first thing that is read at the statement.
  have hinside : ∀ (p : Placed), p.node = program before after (first ++ statement :: second) →
      ∀ {z}, d.harvest s lines p = .ok z →
        ∃ dependency, Dependency.esm statement = .ok dependency := by
    intro p hp z hz
    have hcontainer : p.node.kindIn containerKinds := hp ▸ container_program hprogram _
    obtain ⟨own, hown⟩ := exists_harvest_child standard hcontainer hz (hp ▸ hmem)
    rw [harvest_reference standard htokens hlloc hkeys hkind] at hown
    obtain ⟨dependency, hdependency, -⟩ := exists_of_bind_eq_ok hown
    exact ⟨dependency, eq_ok_of_mapError hdependency⟩
  cases frame with
  | bare => exact hinside _ rfl h
  | file outer outer' =>
    have hchild : ⟨"program", true, program before after (first ++ statement :: second)⟩ ∈
        ((Frame.file outer outer').around (program before after
          (first ++ statement :: second))).children [] := by
      rw [Frame.children_file hprogram]
      simp
    obtain ⟨z, hz⟩ := exists_harvest_child standard (Frame.container_around fits hprogram _) h
      hchild
    exact hinside _ rfl hz

/-- Where neither the tokens nor the lines of modules are counted, an import or an export of a whole
module counts for nothing. Taking the statement out of a program, which may stand in a file, and
leaving in its place the nodes that it has under other keys than those for what it refers to, such
as its attributes, changes no count of any scope. If it has no such nodes, this is deleting it. Both
traversals fail alike, or the one of the tree with the statement has one dependency more, if there
is one. A dependency that cannot be read makes that traversal fail. -/
theorem Dialect.imports_free (standard : (name, d) ∈ Registry.standard.entries)
    (htokens : s.on .esmHalstead = false) (hlloc : s.on .esmLloc = false)
    (hkeys : (kind, keys) ∈ referenceKeys) (hkind : statement.kind? = some kind)
    {frame : Frame} (fits : frame.Fits)
    (hprogram : (program before after []).kind? = some "Program") (first second : List Document) :
    let tree := fun body => frame.around (program before after body)
    let rest := (statement.children keys).map Child.node
    (∀ dependency, Dependency.esm statement = .ok dependency →
      Agree (Walk.Inserts (dependency.map (·.resolved s)).toList)
        (d.walk s (tree (first ++ (rest ++ second))))
        (d.walk s (tree (first ++ statement :: second)))) ∧
    ∀ w, d.walk s (tree (first ++ statement :: second)) = .ok w →
      ∃ dependency, Dependency.esm statement = .ok dependency := by
  intro tree rest
  -- The root has a kind, so the dialect does not give it one.
  have htyped : ∀ body, d.typedRoot (tree body) = tree body := by
    intro body
    obtain ⟨rootKind, -, hroot⟩ := kindIn_iff.mp (Frame.container_around fits hprogram body)
    rw [Dialect.typedRoot, isNode, hroot]
    rfl
  constructor
  · intro dependency readable
    rw [Dialect.walk_eq_extend, Dialect.walk_eq_extend, htyped, htyped,
      frame.lines?_around before after _ (first ++ statement :: second)]
    apply Agree.bind_same
    intro found
    cases found with
    | none => exact .error _
    | some lines =>
      apply (harvest_around_without_reference standard htokens hlloc hkeys hkind readable fits
        hprogram lines).bind
      rintro y _ ⟨earlier, later, hfound, rfl⟩
      exact .ok ⟨rfl, rfl, rfl, earlier, later, hfound, rfl⟩
  · intro w done
    obtain ⟨lines, y, -, hy, -⟩ := exists_yield done
    rw [htyped] at hy
    exact exists_dependency standard htokens hlloc hkeys hkind fits hprogram hy

end

namespace Sample

/-- The import of a document, with an attribute that says so. -/
def attributedImport : Document :=
  node "ImportDeclaration"
    [("specifiers", .list [node "ImportDefaultSpecifier" [("local", name "data")]]),
     ("source", node "Literal" [("value", .string "./data.json")]),
     ("attributes", .list
      [node "ImportAttribute"
        [("key", name "type"), ("value", node "Literal" [("value", .string "json")])]]),
     ("loc", location)]

/-- A file around a program. -/
def fileFrame : Frame := .file [("type", .string "File")] [("loc", location)]

/-- The program in the file, with the given statements. -/
def fileAround (body : List Document) : Document :=
  fileFrame.around (Estree.program [("type", .string "Program")] [] body)

/-- The statements around the import in the file. -/
def beforeImport : List Document := [function [name "x"] [name "y"]]

end Sample

/-- An import in a file, in the dialect that has files, between a function and a name. Leaving its
attribute in its place changes nothing but the dependency. -/
theorem imports_free_attributed :
    ("babel", Babel.dialect) ∈ Registry.standard.entries ∧
    ({} : Settings).on .esmHalstead = false ∧ ({} : Settings).on .esmLloc = false ∧
    ("ImportDeclaration", ["specifiers", "source"]) ∈ Estree.referenceKeys ∧
    Sample.attributedImport.kind? = some "ImportDeclaration" ∧ Sample.fileFrame.Fits ∧
    ∃ v w,
      Babel.dialect.walk {} (Sample.fileAround (Sample.beforeImport ++
        ((Sample.attributedImport.children ["specifiers", "source"]).map Child.node ++
          [Sample.name "z"]))) = .ok v ∧
      Babel.dialect.walk {} (Sample.fileAround (Sample.beforeImport ++
        Sample.attributedImport :: [Sample.name "z"])) = .ok w ∧
      w.tree.module.operands.identifiers = ["x", "y", "type", "\"json\"", "z"] ∧
      w.tree = v.tree ∧ w.errors = v.errors ∧ v.found = [] ∧ w.found.length = 1 := by
  have hstandard : ("babel", Babel.dialect) ∈ Registry.standard.entries :=
    List.mem_cons_of_mem _ List.mem_cons_self
  have hkeys : ("ImportDeclaration", ["specifiers", "source"]) ∈ Estree.referenceKeys :=
    List.mem_cons_self
  have htokens : ({} : Settings).on .esmHalstead = false := rfl
  have hlloc : ({} : Settings).on .esmLloc = false := rfl
  have hkind : Sample.attributedImport.kind? = some "ImportDeclaration" := rfl
  have hfits : Sample.fileFrame.Fits := rfl
  have hprogram : (Estree.program [("type", .string "Program")] [] []).kind? = some "Program" := rfl
  have hwith : (Babel.dialect.walk {} (Sample.fileAround (Sample.beforeImport ++
      Sample.attributedImport :: [Sample.name "z"]))).toOption.map
        (fun w => (w.tree.module.operands.identifiers, w.found.length)) =
          some (["x", "y", "type", "\"json\"", "z"], 1) := by
    rw [Babel.dialect_eq]
    decide +kernel
  obtain ⟨w, hw, hpair⟩ := exists_ok_of_map_toOption hwith
  obtain ⟨hidentifiers, hlength⟩ := Prod.mk.inj hpair
  have hagree := (Dialect.imports_free hstandard htokens hlloc hkeys hkind hfits hprogram
    Sample.beforeImport [Sample.name "z"]).1 (some ⟨1, .string "./data.json", "esm"⟩) rfl
  change Agree _ _ (Babel.dialect.walk {} (Sample.fileAround (Sample.beforeImport ++
    Sample.attributedImport :: [Sample.name "z"]))) at hagree
  rw [hw] at hagree
  generalize hv : Babel.dialect.walk {} _ = result at hagree
  cases hagree with
  | ok h =>
    obtain ⟨earlier, later, hbefore, hafter⟩ := h.found
    refine ⟨hstandard, htokens, hlloc, hkeys, hkind, hfits, _, w, hv, hw, hidentifiers,
      h.tree, h.errors, ?_, hlength⟩
    -- The import has the only dependency.
    rw [hafter] at hlength
    have hnone : (earlier ++ later).length = 0 := by
      simp only [Option.map_some, Option.toList_some, List.length_append,
        List.length_singleton] at hlength ⊢
      omega
    rw [hbefore]
    exact List.length_eq_zero_iff.mp hnone

/-- The attributes of an import are not passed over. Deleting the import from a module takes away
the tokens of the attribute, and the warning about its kind. -/
theorem import_attributes_count :
    Sample.attributedImport.kind? = some "ImportDeclaration" ∧
    ({} : Settings).on .esmHalstead = false ∧ ({} : Settings).on .esmLloc = false ∧
    (∃ w, Estree.dialect.walk {} (Sample.moduleOf [Sample.attributedImport]) = .ok w ∧
      w.tree.module.operands.identifiers = ["type", "\"json\""] ∧
      w.unsupported = ["ImportAttribute"]) ∧
    ∃ v, Estree.dialect.walk {} (Sample.moduleOf []) = .ok v ∧
      v.tree.module.operands.identifiers = [] ∧ v.unsupported = [] := by
  have hwith : (Estree.dialect.walk {} (Sample.moduleOf [Sample.attributedImport])).toOption.map
      (fun w => (w.tree.module.operands.identifiers, w.unsupported)) =
        some (["type", "\"json\""], ["ImportAttribute"]) := by
    decide +kernel
  have hwithout : (Estree.dialect.walk {} (Sample.moduleOf [])).toOption.map
      (fun v => (v.tree.module.operands.identifiers, v.unsupported)) = some ([], []) := by
    decide +kernel
  obtain ⟨w, hw, hpair⟩ := exists_ok_of_map_toOption hwith
  obtain ⟨v, hv, hpair'⟩ := exists_ok_of_map_toOption hwithout
  simp only [Prod.mk.injEq] at hpair hpair'
  exact ⟨rfl, rfl, rfl, ⟨w, hw, hpair⟩, v, hv, hpair'⟩

end CodeMetrics
