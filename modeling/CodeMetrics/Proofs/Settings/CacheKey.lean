import CodeMetrics.Analyzer
import CodeMetrics.Proofs.Cache.Operation
import CodeMetrics.Proofs.Cache.Provenance
import CodeMetrics.Proofs.Document.Readable
import CodeMetrics.Proofs.Rule.Asking
import CodeMetrics.Proofs.Settings.Resolution
import CodeMetrics.Proofs.Traversal.Lockstep

/-!
# `CodeMetrics.Proofs.Settings.CacheKey`: what the key of settings tells apart

The rules of an analysis are the flags that are on, the name of the loading function, the dialect
and the resolver (`SameRules`). Settings with the same rules lead to the same traversals
(`SameRules.walk_eq`), and to reports that differ in the settings they repeat
(`SameRules.report_eq`).

A key shows each setting behind its name. It can be taken apart, because all settings but the name
of the loading function end where a semicolon follows outside of quotes
(`display_eq_of_cacheKey_eq`). A flag is read as on or off but shown as the value it was given.
Settings with the same key have the same rules, unless a text is mistaken for another value
(`sameRules_of_cacheKey_eq`). A cache that two such settings share never answers with a report that
was made under other rules. Texts can be mistaken: a flag that is given the text `False` is on, and
it is shown as a flag that is off (`mistaken_texts_share_cacheKey`).
-/

set_option autoImplicit false

namespace CodeMetrics

/-! ### Settings with the same rules -/

/-- Settings that nothing but a report can tell apart. -/
structure Settings.SameRules (s t : Settings) : Prop where
  on : ∀ f, t.on f = s.on f
  requireName : t.requireName = s.requireName
  dialect : t.dialect = s.dialect
  resolver : t.resolver = s.resolver

/-- The traversal of a tree in the dialect that the settings name. -/
def Registry.walk (r : Registry) (s : Settings) (root : Document) : Except Error Walk := do
  (← r.choose s).walk s root

/-- The report on a tree in the dialect that the settings name. -/
def Registry.report (r : Registry) (s : Settings) (tree : Document) : Except Error Report := do
  (← r.choose s).analyze s tree

namespace Settings.SameRules

variable {s t : Settings}

theorem refl (s : Settings) : s.SameRules s :=
  ⟨fun _ => rfl, rfl, rfl, rfl⟩

theorem symm (h : s.SameRules t) : t.SameRules s :=
  ⟨fun f => (h.on f).symm, h.requireName.symm, h.dialect.symm, h.resolver.symm⟩

theorem choose_eq (h : s.SameRules t) (r : Registry) : r.choose t = r.choose s := by
  rw [Registry.choose, Registry.choose, h.dialect]

/-- A rule reads the same. -/
theorem read_eq (h : s.SameRules t) (rule : Rule) (p : Placed) : rule.read t p = rule.read s p :=
  Rule.read_eq ⟨fun f _ => h.on f, rfl, rfl⟩
    (Rule.dependencyAt_congr (h.on .commonjs) h.requireName p.node)

/-- A step does the same. -/
theorem perform_eq (h : s.SameRules t) (d : Dialect) (w : Walk) (task : Task) :
    w.perform d t task = w.perform d s task := by
  cases task with
  | visit p =>
    have hrecord : ∀ c, w.record t c = w.record s c := by
      intro c
      rw [Walk.record, Walk.record, Dependency.resolved_congr h.resolver]
    have hunknown : w.meetUnknown d t p.node = w.meetUnknown d s p.node := by
      rw [Walk.meetUnknown, Walk.meetUnknown, h.on]
    simp only [Walk.perform, h.read_eq, hrecord, hunknown]
  | openScope p rule form => rfl
  | closeScope form => rfl

/-- A tree is traversed in the same way. -/
theorem walk_eq (h : s.SameRules t) (d : Dialect) (root : Document) :
    d.walk t root = d.walk s root := by
  -- The two walks are not only related but the same after each step.
  refine (Agree.eq (Dialect.walks_agree (fun _ => rfl) ?_ ?_)).symm
  · intro p
    simp only [Dialect.ignored?, h.read_eq]
  · rintro task v w rfl
    rw [h.perform_eq]
    exact Agree.refl _

theorem maintainability_eq (h : s.SameRules t) (m : Metrics) (methods : Nat) :
    m.maintainability t methods = m.maintainability s methods := by
  rw [Metrics.maintainability, Metrics.maintainability, h.on]

/-- A class is measured in the same way. -/
theorem ofScope_eq (h : s.SameRules t) (c : ClassScope Number Document)
    (methods : List MethodReport) :
    ClassReport.ofScope t c methods = ClassReport.ofScope s c methods := by
  simp only [ClassReport.ofScope, h.maintainability_eq]

/-- A report differs in the settings that it repeats. -/
theorem build_eq (h : s.SameRules t) (tree : ScopeTree Number Document)
    (dependencies : List (Dependency Document)) (errors : List Diagnostic) :
    Report.build t tree dependencies errors =
      (fun report => { report with settings := t.echo }) <$>
        Report.build s tree dependencies errors := by
  simp only [Report.build, map_bind, map_pure, h.maintainability_eq, h.ofScope_eq]

/-- The report on a tree is the same, but for the settings that it repeats. -/
theorem report_eq (h : s.SameRules t) (r : Registry) (tree : Document) :
    r.report t tree =
      (fun report => { report with settings := t.echo }) <$> r.report s tree := by
  have hmeasure : ∀ d : Dialect, d.measure t tree =
      (fun report => { report with settings := t.echo }) <$> d.measure s tree := by
    intro d
    rw [Dialect.measure, Dialect.measure, h.walk_eq, map_bind]
    refine bind_congr fun w => ?_
    dsimp only
    rw [h.build_eq]
    cases Report.build s _ _ _ with
    | error cause => rfl
    | ok report => rfl
  rw [Registry.report, Registry.report, h.choose_eq, map_bind]
  refine bind_congr fun d => ?_
  rw [Dialect.analyze, Dialect.analyze, map_bind]
  exact bind_congr fun _ => hmeasure d

end Settings.SameRules

/-! ### Taking a key apart -/

namespace Settings

open Text

variable {s t : Settings}

/-- A setting as a key shows it. -/
def shownPart (part : String × Document) : List Char :=
  (part.1 ++ "=").toList ++ part.2.display.toList

/-- A resolver as a key shows it. -/
def shownResolver (r : Resolver) : List Char :=
  ("resolver=" ++ r.name).toList

/-- A key is made of all settings and of the resolver, if there is one. -/
theorem toList_cacheKey (s : Settings) :
    s.cacheKey.toList =
      [';'].intercalate (s.parts.map shownPart ++ (s.resolver.map shownResolver).toList) := by
  have hpart : ∀ part : String × Document,
      (part.1 ++ "=" ++ part.2.display).toList = shownPart part := fun _ => String.toList_append
  rw [cacheKey, String.toList_intercalate, List.map_append, List.map_map]
  simp only [Function.comp_def, hpart]
  cases s.resolver with
  | none => rfl
  | some r => rfl

/-- A setting can be told from the others if its values can. -/
theorem told_shownPart {name : String} (hname : isMild (name ++ "=").toList) {v w : Document}
    (h : v = w ∨ v.unmistakable ∧ w.unmistakable) :
    Told (shownPart (name, v)) (shownPart (name, w)) := by
  rcases h with rfl | ⟨hv, hw⟩
  · exact .inl rfl
  · exact .inr ⟨Part.append_left (Document.part_display hv) hname,
      Part.append_left (Document.part_display hw) hname⟩

theorem display_eq_of_shownPart_eq {name : String} {v w : Document}
    (h : shownPart (name, v) = shownPart (name, w)) : v.display = w.display :=
  String.toList_inj.mp (List.append_cancel_left h)

/-- The known dialects are not mistaken for anything else. -/
theorem unmistakable_of_mem_dialects :
    ∀ name ∈ dialects, (Document.string name).unmistakable := by
  decide

/-- Settings with the same key show the same. -/
theorem display_eq_of_cacheKey_eq (hs : s.resolver = none) (ht : t.resolver = none)
    (hsdialect : s.dialect ∈ dialects) (htdialect : t.dialect ∈ dialects)
    (h : ∀ f, s.value f = t.value f ∨ (s.value f).unmistakable ∧ (t.value f).unmistakable)
    (same : s.cacheKey = t.cacheKey) :
    (∀ f, (s.value f).display = (t.value f).display) ∧ s.requireName = t.requireName ∧
      s.dialect = t.dialect := by
  have hkeys := congrArg String.toList same
  rw [toList_cacheKey, toList_cacheKey, hs, ht, Option.map_none, Option.toList_none,
    List.append_nil, List.append_nil] at hkeys
  have hdialect : Document.string s.dialect = .string t.dialect ∨
      (Document.string s.dialect).unmistakable ∧ (Document.string t.dialect).unmistakable :=
    .inr ⟨unmistakable_of_mem_dialects _ hsdialect, unmistakable_of_mem_dialects _ htdialect⟩
  -- The name of the loading function may be any text. The settings before it are told from the
  -- front, those behind it from the end.
  have hbefore : List.Forall₂ Told ((s.parts.take 7).map shownPart)
      ((t.parts.take 7).map shownPart) :=
    .cons (told_shownPart (by decide) (h .commonjs)) <|
    .cons (told_shownPart (by decide) hdialect) <|
    .cons (told_shownPart (by decide) (h .esmHalstead)) <|
    .cons (told_shownPart (by decide) (h .esmLloc)) <|
    .cons (told_shownPart (by decide) (h .forin)) <|
    .cons (told_shownPart (by decide) (h .logicalor)) <|
    .cons (told_shownPart (by decide) (h .newmi)) .nil
  have hbehind : List.Forall₂ Told ((s.parts.drop 8).map shownPart)
      ((t.parts.drop 8).map shownPart) :=
    .cons (told_shownPart (by decide) (h .strict)) <|
    .cons (told_shownPart (by decide) (h .switchcase)) <|
    .cons (told_shownPart (by decide) (h .templateHalstead)) <|
    .cons (told_shownPart (by decide) (h .trycatch)) .nil
  obtain ⟨hfront, hname, hback⟩ := intercalate_inj hbefore hbehind hkeys
  simp only [parts, List.take_succ_cons, List.take_zero, List.drop_succ_cons, List.drop_zero,
    List.map_cons, List.map_nil, List.cons.injEq] at hfront hback
  obtain ⟨hcommonjs, hdialect, hesmHalstead, hesmLloc, hforin, hlogicalor, hnewmi, -⟩ := hfront
  obtain ⟨hstrict, hswitchcase, htemplate, htrycatch, -⟩ := hback
  refine ⟨fun f => ?_, display_eq_of_shownPart_eq hname, display_eq_of_shownPart_eq hdialect⟩
  cases f with
  | logicalor => exact display_eq_of_shownPart_eq hlogicalor
  | switchcase => exact display_eq_of_shownPart_eq hswitchcase
  | forin => exact display_eq_of_shownPart_eq hforin
  | trycatch => exact display_eq_of_shownPart_eq htrycatch
  | newmi => exact display_eq_of_shownPart_eq hnewmi
  | commonjs => exact display_eq_of_shownPart_eq hcommonjs
  | esmHalstead => exact display_eq_of_shownPart_eq hesmHalstead
  | esmLloc => exact display_eq_of_shownPart_eq hesmLloc
  | templateHalstead => exact display_eq_of_shownPart_eq htemplate
  | strict => exact display_eq_of_shownPart_eq hstrict

end Settings

/-! ### Settings from documents -/

namespace Options

/-- Options that come as values leave a value in the place of the resolver. -/
theorem exists_value_of_values {o : Options} (h : ∀ e ∈ o, ∃ key value, e = .value key value) :
    ∃ v, o.draft.resolver = .value v := by
  rcases exists_decides o .resolver with ⟨choice, hdecides⟩ | huntargeted
  · have hfield := field_draft_of_decides hdecides
    obtain ⟨before, e, after, rfl, hgives, -⟩ := hdecides
    obtain ⟨key, value, rfl⟩ := h e (by simp)
    obtain ⟨v, rfl⟩ := hgives.exists_value
    exact ⟨v, hfield⟩
  · exact ⟨.null, field_draft_of_untargeted huntargeted⟩

/-- Options that come as a document give settings with a known dialect and without a resolver. -/
theorem settings_of_ofDocument {options : Document} {s : Settings}
    (h : (ofDocument options >>= settings) = .ok s) :
    s.dialect ∈ Settings.dialects ∧ s.resolver = none := by
  obtain ⟨entries, hentries, hsettings⟩ := exists_of_bind_eq_ok h
  have hvalues : ∀ entry ∈ entries, ∃ key value, entry = .value key value := by
    cases options with
    | null =>
      cases hentries
      exact fun entry hentry => absurd hentry List.not_mem_nil
    | object fields =>
      cases hentries
      exact List.forall_mem_map.mpr fun field _ => ⟨field.1, field.2, rfl⟩
    | _ => cases hentries
  obtain ⟨hdialect, -, hresolver, -⟩ := Draft.check_eq_ok_iff.mp hsettings
  obtain ⟨-, -, -, hdialect⟩ := Draft.checkDialect_eq_ok_iff.mp hdialect
  obtain ⟨value, hvalue⟩ := exists_value_of_values hvalues
  rw [← draft, hvalue] at hresolver
  refine ⟨hdialect, ?_⟩
  -- A document can give a value for the resolver, and only null passes the check.
  cases value with
  | null => exact (Except.ok.inj hresolver).symm
  | _ => cases hresolver

end Options

/-! ### Settings with the same key -/

/-- Every report that is stored was made under one of two settings, for the tree whose key it is
stored under. -/
def Cache.SharedBy (r : Registry) (s t : Settings) (ops : List (Op Report)) : Prop :=
  ∀ now key treeHash report, Op.put now key treeHash report ∈ ops →
    ∃ maker ∈ [s, t], ∃ tree, key = maker.keyFor tree ∧ r.report maker tree = .ok report

/-- What is served is kept. -/
theorem Cache.exists_entry_of_get {α : Type} {c next : Cache α} {now : Number} {key : String}
    {value : α} (h : c.get now key = .ok (some value, next)) :
    ∃ e ∈ c.entries, e.key = key ∧ e.value = value := by
  unfold get at h
  cases hfind : c.find? key with
  | none =>
    rw [hfind] at h
    cases h
  | some e =>
    rw [hfind] at h
    obtain ⟨fresh, -, h⟩ := exists_of_bind_eq_ok h
    obtain ⟨hmem, hkey⟩ := mem_of_find? hfind
    cases fresh with
    | true =>
      cases h
      exact ⟨e, hmem, hkey, rfl⟩
    | false => cases h

/-- A report is only served under settings by which it could have been made. -/
theorem Cache.report_of_sharedBy {r : Registry} {s t : Settings} (rules : s.SameRules t)
    (same : s.cacheKey = t.cacheKey) {c : Cache Report} (hsound : c.Sound)
    (hempty : c.entries = []) {ops : List (Op Report)} (shared : SharedBy r s t ops)
    {asker : Settings} (hasker : asker ∈ [s, t]) {now : Instant} {tree : Document}
    {report : Report} {next : Cache Report}
    (served : (c.run ops).get now.value (asker.keyFor tree) = .ok (some report, next)) :
    ∃ source, asker.keyFor source = asker.keyFor tree ∧
      r.report asker source = .ok { report with settings := asker.echo } := by
  obtain ⟨e, hmem, hkey, rfl⟩ := exists_entry_of_get served
  obtain ⟨before, after, stored, rfl, -, -⟩ := latestPut_run hsound hempty ops e hmem
  obtain ⟨maker, hmaker, source, hsource, hreport⟩ :=
    shared stored e.key e.treeHash e.value (by simp)
  -- Whoever made the report and whoever asks for it, their rules and their keys are the same.
  have halike : maker.SameRules asker ∧ maker.cacheKey = asker.cacheKey := by
    rw [List.mem_pair] at hmaker hasker
    rcases hmaker with rfl | rfl
    · rcases hasker with rfl | rfl
      · exact ⟨.refl _, rfl⟩
      · exact ⟨rules, same⟩
    · rcases hasker with rfl | rfl
      · exact ⟨rules.symm, same.symm⟩
      · exact ⟨.refl _, rfl⟩
  obtain ⟨hrules, hcacheKey⟩ := halike
  refine ⟨source, ?_, ?_⟩
  · rw [← hkey, hsource, Settings.keyFor, Settings.keyFor, hcacheKey]
  · rw [hrules.report_eq, hreport]
    rfl

/-- Settings with the same key have the same rules, if every flag that they give different values is
given values that are not mistaken for others. They lead to the same traversal of each tree. A cache
that they share serves each of them reports that it could have made, but for the settings that are
repeated. -/
theorem Settings.sameRules_of_cacheKey_eq {options options' : Document} {s t : Settings}
    (accepted : (Options.ofDocument options >>= Options.settings) = .ok s)
    (accepted' : (Options.ofDocument options' >>= Options.settings) = .ok t)
    (unmistakable : ∀ f, s.value f = t.value f ∨
      (s.value f).unmistakable ∧ (t.value f).unmistakable)
    (same : s.cacheKey = t.cacheKey) :
    s.SameRules t ∧
    (∀ (r : Registry) (root : Document), r.walk s root = r.walk t root) ∧
    ∀ (r : Registry) (size : Nat) (limit : Option Number) (c : Cache Report)
      (ops : List (Cache.Op Report)),
      Cache.create (.int size) (limit.map .seconds) = .ok c → Cache.SharedBy r s t ops →
      ∀ asker ∈ [s, t], ∀ (now : Instant) (tree : Document) (report : Report) (next : Cache Report),
        (c.run ops).get now.value (asker.keyFor tree) = .ok (some report, next) →
        ∃ source, asker.keyFor source = asker.keyFor tree ∧
          r.report asker source = .ok { report with settings := asker.echo } := by
  obtain ⟨hdialect, hresolver⟩ := Options.settings_of_ofDocument accepted
  obtain ⟨hdialect', hresolver'⟩ := Options.settings_of_ofDocument accepted'
  obtain ⟨hflags, hname, hnamed⟩ :=
    display_eq_of_cacheKey_eq hresolver hresolver' hdialect hdialect' unmistakable same
  -- A flag counts only as set or not, which is less than the key says about it.
  have rules : s.SameRules t :=
    { on := fun f => (Document.truthy_eq_of_display_eq (unmistakable f) (hflags f)).symm
      requireName := hname.symm
      dialect := hnamed.symm
      resolver := hresolver'.trans hresolver.symm }
  refine ⟨rules, ?_, ?_⟩
  · intro r root
    rw [Registry.walk, Registry.walk, rules.choose_eq]
    exact bind_congr fun d => (rules.walk_eq d root).symm
  · intro r size limit c ops created shared asker hasker now tree report next served
    have hempty : c.entries = [] := by
      obtain ⟨-, rfl⟩ := Cache.create_cases created
      rfl
    exact Cache.report_of_sharedBy rules same (Cache.sound_create created) hempty shared hasker
      served

namespace Sample

/-- Options with some value for a flag. Other settings hold semicolons. -/
def loopOptions (flag : Document) : Document :=
  .object [("forin", flag), ("newmi", .list [.string "a;b"]),
    ("requireName", .string "load;strict=True")]

/-- The settings that they describe. -/
def loopSettings (flag : Document) : Settings :=
  { forin := flag, newmi := .list [.string "a;b"], requireName := "load;strict=True" }

end Sample

/-- A flag is on, given as a value and as the text that it is shown as. The report that was made for
one is served for the other. -/
theorem Settings.sameRules_of_spelled_true :
    let s := Sample.loopSettings (.bool true)
    let t := Sample.loopSettings (.string "True")
    let registry := Registry.standard
    let tree := Analyzer.Sample.sorted
    (Options.ofDocument (Sample.loopOptions (.bool true)) >>= Options.settings) = .ok s ∧
    (Options.ofDocument (Sample.loopOptions (.string "True")) >>= Options.settings) = .ok t ∧
    (∀ f, s.value f = t.value f ∨ (s.value f).unmistakable ∧ (t.value f).unmistakable) ∧
    s.cacheKey = t.cacheKey ∧ s.SameRules t ∧
    (∀ root, registry.walk s root = registry.walk t root) ∧
    ∃ report, registry.report s tree = .ok report ∧
      ∃ source, t.keyFor source = t.keyFor tree ∧
        registry.report t source = .ok { report with settings := t.echo } := by
  intro s t registry tree
  have hvalues : ∀ f, s.value f = t.value f ∨
      (s.value f).unmistakable ∧ (t.value f).unmistakable := by
    intro f
    cases f with
    | forin => exact .inr ⟨by decide, by decide⟩
    | _ => exact .inl rfl
  have hsame : s.cacheKey = t.cacheKey := by decide +kernel
  have haccepted :
      (Options.ofDocument (Sample.loopOptions (.bool true)) >>= Options.settings) = .ok s := rfl
  have haccepted' :
      (Options.ofDocument (Sample.loopOptions (.string "True")) >>= Options.settings) = .ok t := rfl
  obtain ⟨hrules, hwalk, hcache⟩ :=
    sameRules_of_cacheKey_eq haccepted haccepted' hvalues hsame
  have hshaped : tree.isShapedTo 2 = true := by decide +kernel
  obtain ⟨report, hmade⟩ := Dialect.exists_report_of_isShapedTo (s := s)
    (List.mem_cons_self : ("estree", Estree.dialect) ∈ registry.entries) rfl rfl hshaped
    (by decide +kernel)
  have hchosen : Registry.standard.choose (Sample.loopSettings (.bool true)) = .ok Estree.dialect :=
    rfl
  have hreport : registry.report s tree = .ok report := (bind_eq_of_eq_ok hchosen).trans hmade
  -- The report is stored for one and asked for by the other.
  let ops : List (Cache.Op Report) := [.put (.second 0) (s.keyFor tree) tree.hash report]
  have hshared : Cache.SharedBy registry s t ops := by
    intro now key treeHash stored hstored
    cases List.mem_singleton.mp hstored
    exact ⟨s, by simp, tree, rfl, hreport⟩
  have hkey : t.keyFor tree = s.keyFor tree := by
    rw [Settings.keyFor, Settings.keyFor, hsame]
  have hserved : ∃ next, (Cache.run { maxSize := 1 } ops).get 0 (t.keyFor tree) =
      .ok (some report, next) := by
    rw [hkey]
    exact Cache.get_of_find? rfl (Cache.find?_put 0 (s.keyFor tree) tree.hash report) 0
  obtain ⟨next, hserved⟩ := hserved
  exact ⟨haccepted, haccepted', hvalues, hsame, hrules, hwalk registry, report, hreport,
    hcache registry 1 none { maxSize := 1 } ops rfl hshared t (by simp) (.second 0) tree report next
      hserved⟩

/-! ### Texts that are mistaken -/

namespace Sample

/-- A module with a loop over keys, an alternative and a node of an unknown kind. -/
def manyRules : Document :=
  .object
    [("type", .string "Program"),
     ("body", .list
       [.object [("type", .string "ForInStatement")],
        .object [("type", .string "LogicalExpression"), ("operator", .string "||")],
        .object [("type", .string "Odd")]]),
     ("loc", .object [("start", .object [("line", .int 1)]), ("end", .object [("line", .int 3)])])]

/-- The number of paths through a module, if it can be traversed. -/
def paths (s : Settings) (root : Document) : Option Int :=
  (Registry.standard.walk s root).toOption.map fun w => w.tree.module.cyclomatic

/-- Options that are shown alike. A text is mistaken for a value that is not set, for the end of
a setting and the next one, or for a quote. -/
def mistaken : List (Document × Document) :=
  [(.object [("forin", .bool false)], .object [("forin", .string "False")]),
   (.object [("requireName", .string "load;strict=True"), ("strict", .bool false)],
    .object [("requireName", .string "load"), ("strict", .string "True;strict=False")]),
   (.object [("forin", .list [.string "a;logicalor=b;newmi=c;require_name=d"]),
      ("logicalor", .bool false)],
    .object [("forin", .string "['a"), ("logicalor", .string "b"), ("newmi", .string "c"),
      ("requireName", .string "d'];logicalor=False;newmi=False;require_name=require")])]

end Sample

/-- Each of two options is accepted and their keys are the same, but a tree is traversed in
different ways. -/
theorem mistaken_texts_share_cacheKey : Sample.mistaken.Forall fun pair => ∃ s t,
    (Options.ofDocument pair.1 >>= Options.settings) = .ok s ∧
    (Options.ofDocument pair.2 >>= Options.settings) = .ok t ∧
    s.cacheKey = t.cacheKey ∧
    Sample.paths s Sample.manyRules ≠ Sample.paths t Sample.manyRules := by
  refine ⟨?_, ?_, ?_⟩
  · exact ⟨{ forin := .bool false }, { forin := .string "False" }, rfl, rfl,
      by decide +kernel, by decide +kernel⟩
  · exact ⟨{ requireName := "load;strict=True", strict := .bool false },
      { requireName := "load", strict := .string "True;strict=False" }, rfl, rfl,
      by decide +kernel, by decide +kernel⟩
  · exact ⟨{ logicalor := .bool false
             forin := .list [.string "a;logicalor=b;newmi=c;require_name=d"] },
      { forin := .string "['a", logicalor := .string "b", newmi := .string "c",
        requireName := "d'];logicalor=False;newmi=False;require_name=require" }, rfl, rfl,
      by decide +kernel, by decide +kernel⟩

end CodeMetrics
