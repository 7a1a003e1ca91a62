import CodeMetrics.Proofs.Settings.Check
import Mathlib.Data.List.Basic
import Mathlib.Data.List.Perm.Basic

/-!
# `CodeMetrics.Proofs.Settings.Resolution`: which option decides a setting

An option targets a setting by its name, by its name in camel case, or from inside a group
(`OptionEntry.Gives`). Where several options target the same setting, the last one decides
(`Options.Decides`). Settings that no option targets have their default.

The options are applied to a draft one after the other, and a group has several effects. An
assignment changes one setting and leaves the others (`Draft.field_apply`). So a list of them leaves
the value that all its assignments to a setting agree on (`Draft.field_foldl_apply`), and the
assignments of one option do agree (`OptionEntry.Gives.unique`). What the draft holds at the end is
then given by the last option that targets the setting, whatever the other options are.

From this it follows that the order of options matters only where two of them target the same
setting (`Options.draft_perm`), and that options without a target do not matter at all
(`Options.draft_filter`).
-/

set_option autoImplicit false

namespace CodeMetrics

/-! ### Targets -/

namespace Setting

/-- The name of a setting. -/
def name : Setting → String
  | .flag .logicalor => "logicalor"
  | .flag .switchcase => "switchcase"
  | .flag .forin => "forin"
  | .flag .trycatch => "trycatch"
  | .flag .newmi => "newmi"
  | .flag .commonjs => "commonjs"
  | .flag .esmHalstead => "esm_import_export_halstead"
  | .flag .esmLloc => "esm_import_export_lloc"
  | .flag .templateHalstead => "template_expression_halstead"
  | .flag .strict => "strict"
  | .requireName => "require_name"
  | .dialect => "dialect"
  | .resolver => "dependency_resolver"

/-- The name in camel case, for the two settings that have one. -/
def camelName? : Setting → Option String
  | .requireName => some "requireName"
  | .resolver => some "dependencyResolver"
  | _ => none

/-- The group that a setting belongs to, and its key there. -/
def place? : Setting → Option (String × String)
  | .flag .esmHalstead => some ("esmImportExport", "halstead")
  | .flag .esmLloc => some ("esmImportExport", "lloc")
  | .flag .templateHalstead => some ("templateExpression", "halstead")
  | _ => none

/-- No setting is called like the group that it belongs to. -/
theorem name_ne_of_place? {x : Setting} {group key : String} (h : x.place? = some (group, key)) :
    x.name ≠ group ∧ x.camelName? ≠ some group := by
  cases x with
  | flag f =>
    cases f with
    | esmHalstead =>
      cases h
      simp [name, camelName?]
    | esmLloc =>
      cases h
      simp [name, camelName?]
    | templateHalstead =>
      cases h
      simp [name, camelName?]
    | _ => cases h
  | _ => cases h

end Setting

namespace OptionEntry

/-- An option gives a setting a value. -/
inductive Gives : OptionEntry → Setting → ResolverChoice → Prop
  | named (x : Setting) (v : Document) : Gives (.value x.name v) x (.value v)
  | camelCase {x : Setting} {key : String} (h : x.camelName? = some key) (v : Document) :
    Gives (.value key v) x (.value v)
  | grouped {x : Setting} {group key : String} {fields : List (String × Document)} {v : Document}
    (h : x.place? = some (group, key)) (there : Document.lookup key fields = some v) :
    Gives (.value group (.object fields)) x (.value v)
  | resolver (key : ResolverKey) (r : Resolver) : Gives (.resolver key r) .resolver (.resolver r)

/-- An option targets a setting if it gives it a value. -/
def Targets (e : OptionEntry) (x : Setting) : Prop :=
  ∃ v, e.Gives x v

/-- Two options without a common target. -/
def Apart (e e' : OptionEntry) : Prop :=
  ∀ x, ¬(e.Targets x ∧ e'.Targets x)

/-- An option without a target. -/
def Idle (e : OptionEntry) : Prop :=
  ∀ x, ¬e.Targets x

theorem Apart.symm {e e' : OptionEntry} (h : e.Apart e') : e'.Apart e := by
  intro x hboth
  exact h x ⟨hboth.2, hboth.1⟩

/-- An option gives a setting no more than one value. -/
theorem Gives.unique {e : OptionEntry} {x : Setting} {v w : ResolverChoice} (hv : e.Gives x v)
    (hw : e.Gives x w) : v = w := by
  cases hv with
  | named x v =>
    -- The name is no variable, so the cases of the other side need it in an equation.
    generalize hkey : x.name = key at hw
    cases hw with
    | named => rfl
    | camelCase => rfl
    | grouped h there => exact absurd hkey (Setting.name_ne_of_place? h).1
  | camelCase hcamel v =>
    cases hw with
    | named => rfl
    | camelCase => rfl
    | grouped h there => exact absurd hcamel (Setting.name_ne_of_place? h).2
  | grouped h there =>
    cases hw with
    | named => exact absurd rfl (Setting.name_ne_of_place? h).1
    | camelCase hcamel => exact absurd hcamel (Setting.name_ne_of_place? h).2
    | grouped h' there' =>
      cases h.symm.trans h'
      cases there.symm.trans there'
      rfl
  | resolver key r =>
    cases hw with
    | resolver => rfl

/-- An option that comes as a value gives a value, and no resolver. -/
theorem Gives.exists_value {key : String} {value : Document} {x : Setting} {given : ResolverChoice}
    (h : Gives (.value key value) x given) : ∃ v, given = .value v := by
  generalize hentry : OptionEntry.value key value = e at h
  cases h with
  | named x v => exact ⟨v, rfl⟩
  | camelCase hcamel v => exact ⟨v, rfl⟩
  | @grouped _ _ _ _ v hplace hthere => exact ⟨v, rfl⟩
  | resolver key r => cases hentry

end OptionEntry

namespace Options

/-- The last option that targets a setting gives it a value. -/
def Decides (o : Options) (x : Setting) (v : ResolverChoice) : Prop :=
  ∃ before e after, o = before ++ e :: after ∧ e.Gives x v ∧ ∀ later ∈ after, ¬later.Targets x

/-- A setting is targeted by a last option or by none. -/
theorem exists_decides (o : Options) (x : Setting) :
    (∃ v, o.Decides x v) ∨ ∀ e ∈ o, ¬e.Targets x := by
  induction o with
  | nil => exact .inr (List.forall_mem_nil _)
  | cons e rest ih =>
    rcases ih with ⟨v, before, last, after, rfl, hv, hafter⟩ | hrest
    · exact .inl ⟨v, e :: before, last, after, rfl, hv, hafter⟩
    · by_cases htargets : e.Targets x
      · obtain ⟨v, hv⟩ := htargets
        exact .inl ⟨v, [], e, rest, rfl, hv, hrest⟩
      · exact .inr (List.forall_mem_cons.mpr ⟨htargets, hrest⟩)

/-- Where options have no common targets, each one decides what it targets. -/
theorem decides_of_apart {o : Options} (apart : o.Pairwise OptionEntry.Apart) {e : OptionEntry}
    (he : e ∈ o) {x : Setting} {v : ResolverChoice} (hv : e.Gives x v) : o.Decides x v := by
  obtain ⟨before, after, rfl⟩ := List.append_of_mem he
  refine ⟨before, e, after, rfl, hv, ?_⟩
  intro later hlater htargets
  have hbehind := (List.pairwise_cons.mp (List.pairwise_append.mp apart).2.1).1
  exact hbehind later hlater x ⟨⟨v, hv⟩, htargets⟩

end Options

/-! ### Assignments -/

namespace Assignment

/-- The setting that is assigned. -/
def setting : Assignment → Setting
  | .flag f _ => .flag f
  | .requireName _ => .requireName
  | .dialect _ => .dialect
  | .resolver _ => .resolver

/-- The value that is assigned. -/
def choice : Assignment → ResolverChoice
  | .flag _ v => .value v
  | .requireName v => .value v
  | .dialect v => .value v
  | .resolver given => given

/-- A value under a name goes to the setting that is called so. -/
theorem of_ofName? {key : String} {v : Document} {a : Assignment} (h : ofName? key v = some a) :
    (a.setting.name = key ∨ a.setting.camelName? = some key) ∧ a.choice = .value v := by
  unfold ofName? at h
  split at h
  case h_16 => cases h
  all_goals
    cases h
    simp [setting, choice, Setting.name, Setting.camelName?]

/-- The keys of a group are those of the settings that belong to it. -/
theorem mem_groupFlags_iff {group key : String} {f : Flag} :
    (key, f) ∈ groupFlags group ↔ (Setting.flag f).place? = some (group, key) := by
  constructor
  · intro h
    unfold groupFlags at h
    split at h
    · simp only [List.mem_cons, Prod.mk.injEq, List.not_mem_nil, or_false] at h
      rcases h with ⟨rfl, rfl⟩ | ⟨rfl, rfl⟩
      · rfl
      · rfl
    · simp only [List.mem_cons, Prod.mk.injEq, List.not_mem_nil, or_false] at h
      obtain ⟨rfl, rfl⟩ := h
      rfl
    · cases h
  · intro h
    cases f with
    | esmHalstead =>
      cases h
      simp [groupFlags]
    | esmLloc =>
      cases h
      simp [groupFlags]
    | templateHalstead =>
      cases h
      simp [groupFlags]
    | _ => cases h

/-- The assignments of a group that has some. -/
theorem ofEntry_group {group : String} (h : groupFlags group ≠ [])
    (fields : List (String × Document)) :
    ofEntry (.value group (.object fields)) = ofGroup (groupFlags group) (.object fields) := by
  cases hflags : groupFlags group with
  | nil => exact absurd hflags h
  | cons first rest => simp only [ofEntry, hflags]

/-- The assignments of an option are what it gives. -/
theorem gives_of_mem_ofEntry {e : OptionEntry} {a : Assignment} (h : a ∈ ofEntry e) :
    e.Gives a.setting a.choice := by
  cases e with
  | resolver key r =>
    rw [List.mem_singleton.mp h]
    exact .resolver key r
  | value key v =>
    unfold ofEntry at h
    dsimp only at h
    split at h
    · obtain ⟨hcalled, hchoice⟩ := of_ofName? (Option.mem_toList.mp h)
      rw [hchoice]
      rcases hcalled with rfl | hcamel
      · exact .named _ _
      · exact .camelCase hcamel _
    · obtain ⟨⟨inner, f⟩, hmem, hgiven⟩ := List.mem_filterMap.mp h
      obtain ⟨given, hthere, rfl⟩ := Option.map_eq_some_iff.mp hgiven
      exact .grouped (mem_groupFlags_iff.mp hmem) hthere
    · cases h

/-- What an option gives is among its assignments. -/
theorem exists_mem_ofEntry {e : OptionEntry} {x : Setting} {v : ResolverChoice}
    (h : e.Gives x v) : ∃ a ∈ ofEntry e, a.setting = x ∧ a.choice = v := by
  cases h with
  | named x v =>
    cases x with
    | flag f =>
      refine ⟨.flag f v, ?_, rfl, rfl⟩
      cases f <;> exact List.mem_singleton_self _
    | requireName => exact ⟨.requireName v, List.mem_singleton_self _, rfl, rfl⟩
    | dialect => exact ⟨.dialect v, List.mem_singleton_self _, rfl, rfl⟩
    | resolver => exact ⟨.resolver (.value v), List.mem_singleton_self _, rfl, rfl⟩
  | camelCase hcamel v =>
    cases x with
    | requireName =>
      cases hcamel
      exact ⟨.requireName v, List.mem_singleton_self _, rfl, rfl⟩
    | resolver =>
      cases hcamel
      exact ⟨.resolver (.value v), List.mem_singleton_self _, rfl, rfl⟩
    | _ => cases hcamel
  --  @grouped|Groups hold flags only, so every other setting has no place in one.
  | @grouped _ group key fields v hplace hthere =>
    cases x with
    | flag f =>
      have hmem : (key, f) ∈ groupFlags group := mem_groupFlags_iff.mpr hplace
      refine ⟨.flag f v, ?_, rfl, rfl⟩
      rw [ofEntry_group (List.ne_nil_of_mem hmem)]
      exact List.mem_filterMap.mpr ⟨(key, f), hmem, congrArg (Option.map _) hthere⟩
    | _ => cases hplace
  | resolver key r => exact ⟨.resolver (.resolver r), List.mem_singleton_self _, rfl, rfl⟩

/-- The targets of an option are the settings that it assigns. -/
theorem targets_iff {e : OptionEntry} {x : Setting} :
    e.Targets x ↔ x ∈ (ofEntry e).map setting := by
  constructor
  · rintro ⟨v, hv⟩
    obtain ⟨a, ha, hsetting, -⟩ := exists_mem_ofEntry hv
    exact List.mem_map.mpr ⟨a, ha, hsetting⟩
  · intro h
    obtain ⟨a, ha, rfl⟩ := List.mem_map.mp h
    exact ⟨a.choice, gives_of_mem_ofEntry ha⟩

/-- The options without a target are those without an effect. -/
theorem ofEntry_eq_nil_iff {e : OptionEntry} : ofEntry e = [] ↔ e.Idle := by
  simp only [OptionEntry.Idle, targets_iff, ← List.eq_nil_iff_forall_not_mem, List.map_eq_nil_iff]

end Assignment

namespace OptionEntry

open Assignment

instance (e : OptionEntry) (x : Setting) : Decidable (e.Targets x) :=
  decidable_of_iff _ targets_iff.symm

instance (e e' : OptionEntry) : Decidable (e.Apart e') :=
  decidable_of_iff (∀ x ∈ (ofEntry e).map setting, ¬e'.Targets x) <| by
    simp only [← targets_iff, Apart, not_and]

instance (e : OptionEntry) : Decidable e.Idle :=
  decidable_of_iff (ofEntry e).isEmpty (List.isEmpty_iff.trans ofEntry_eq_nil_iff)

end OptionEntry

/-! ### Drafts -/

namespace Draft

/-- An assignment changes the setting that it is for. -/
theorem field_apply (d : Draft) (a : Assignment) (x : Setting) :
    (d.apply a).field x = if a.setting = x then a.choice else d.field x := by
  cases a with
  | flag f v =>
    cases x with
    | flag g =>
      show ResolverChoice.value (if g = f then v else d.flag g) = _
      by_cases h : g = f
      · simp [h, Assignment.setting, Assignment.choice]
      · simp [h, Ne.symm h, Assignment.setting, field]
    | _ => rfl
  | requireName v => cases x <;> rfl
  | dialect v => cases x <;> rfl
  | resolver given => cases x <;> rfl

/-- Assignments leave the value that all those for a setting agree on. If there are none, it has to
be there before. -/
theorem field_foldl_apply {as : List Assignment} {x : Setting} {v : ResolverChoice}
    (agree : ∀ a ∈ as, a.setting = x → a.choice = v) {d : Draft}
    (h : (∃ a ∈ as, a.setting = x) ∨ d.field x = v) : (as.foldl apply d).field x = v := by
  induction as generalizing d with
  | nil =>
    rcases h with ⟨a, ha, -⟩ | h
    · cases ha
    · exact h
  | cons a rest ih =>
    obtain ⟨hfirst, hrest⟩ := List.forall_mem_cons.mp agree
    refine ih hrest ?_
    rw [field_apply]
    by_cases hsetting : a.setting = x
    · rw [if_pos hsetting]
      exact .inr (hfirst hsetting)
    · -- The first assignment is for another setting, so the value comes from where it came before.
      rw [if_neg hsetting]
      rcases h with ⟨b, hb, hbx⟩ | h
      · rcases List.mem_cons.mp hb with rfl | hb
        · exact absurd hbx hsetting
        · exact .inl ⟨b, hb, hbx⟩
      · exact .inr h

end Draft

namespace Options

open Assignment

/-- The draft that the options lead to. -/
def draft (o : Options) : Draft :=
  (o.flatMap ofEntry).foldl Draft.apply Draft.default

theorem settings_eq (o : Options) : o.settings = o.draft.check := rfl

/-- Options that do not target a setting leave it. -/
theorem field_foldl_of_untargeted {o : Options} {x : Setting} (h : ∀ e ∈ o, ¬e.Targets x)
    (d : Draft) : ((o.flatMap ofEntry).foldl Draft.apply d).field x = d.field x := by
  refine Draft.field_foldl_apply ?_ (.inr rfl)
  intro a ha hsetting
  obtain ⟨e, he, ha⟩ := List.mem_flatMap.mp ha
  have hgives := gives_of_mem_ofEntry ha
  rw [hsetting] at hgives
  exact absurd ⟨_, hgives⟩ (h e he)

/-- An option leaves what it gives. -/
theorem field_foldl_of_gives {e : OptionEntry} {x : Setting} {v : ResolverChoice}
    (h : e.Gives x v) (d : Draft) : ((ofEntry e).foldl Draft.apply d).field x = v := by
  obtain ⟨a, ha, hsetting, -⟩ := exists_mem_ofEntry h
  refine Draft.field_foldl_apply ?_ (.inl ⟨a, ha, hsetting⟩)
  intro b hb hsame
  have hgives := gives_of_mem_ofEntry hb
  rw [hsame] at hgives
  exact hgives.unique h

/-- The draft holds what the last option that targets a setting gives it. -/
theorem field_draft_of_decides {o : Options} {x : Setting} {v : ResolverChoice}
    (h : o.Decides x v) : o.draft.field x = v := by
  obtain ⟨before, e, after, rfl, hgives, hafter⟩ := h
  rw [draft, List.flatMap_append, List.flatMap_cons, List.foldl_append, List.foldl_append,
    field_foldl_of_untargeted hafter]
  exact field_foldl_of_gives hgives _

/-- The draft holds the default of a setting that no option targets. -/
theorem field_draft_of_untargeted {o : Options} {x : Setting} (h : ∀ e ∈ o, ¬e.Targets x) :
    o.draft.field x = ({} : Settings).field x := by
  rw [draft, field_foldl_of_untargeted h, Draft.field_default]

/-- Options without common targets can be given in any order. -/
theorem draft_perm {o o' : Options} (h : o.Perm o') (apart : o.Pairwise OptionEntry.Apart) :
    o'.draft = o.draft := by
  have apart' : o'.Pairwise OptionEntry.Apart := h.pairwise apart fun hab => hab.symm
  refine Draft.eq_of_field ?_
  intro x
  by_cases htargeted : ∃ e ∈ o, e.Targets x
  · obtain ⟨e, he, v, hv⟩ := htargeted
    rw [field_draft_of_decides (decides_of_apart apart he hv),
      field_draft_of_decides (decides_of_apart apart' (h.mem_iff.mp he) hv)]
  · have huntargeted : ∀ e ∈ o, ¬e.Targets x := fun e he hx => htargeted ⟨e, he, hx⟩
    rw [field_draft_of_untargeted huntargeted,
      field_draft_of_untargeted fun e he => huntargeted e (h.mem_iff.mpr he)]

/-- Options without a target can be left out. -/
theorem draft_filter {o : Options} {keep : OptionEntry → Bool}
    (h : ∀ e ∈ o, keep e = false → e.Idle) : draft (o.filter keep) = o.draft := by
  have hsame : (o.filter keep).flatMap ofEntry = o.flatMap ofEntry := by
    induction o with
    | nil => rfl
    | cons e rest ih =>
      obtain ⟨hfirst, hrest⟩ := List.forall_mem_cons.mp h
      cases hkeep : keep e with
      | true => simp [hkeep, ih hrest]
      | false => simp [hkeep, ih hrest, ofEntry_eq_nil_iff.mpr (hfirst hkeep)]
  rw [draft, draft, hsame]

/-- Accepted options give each setting the value that the last option with this target gives it,
where a dialect is put into lower case, and its default if there is none. The options can be given
in any order if no two of them have a common target, and options without a target can be added or
left out: this changes neither the settings nor the error. -/
theorem settings_by_last_target (o : Options) :
    (∀ s, o.settings = .ok s → ∀ x,
      ((∃ v, o.Decides x v) ∨ ∀ e ∈ o, ¬e.Targets x) ∧
      (∀ v, o.Decides x v → s.field x = x.stored v) ∧
      ((∀ e ∈ o, ¬e.Targets x) → s.field x = ({} : Settings).field x)) ∧
    (∀ o' : Options, o.Perm o' → o.Pairwise OptionEntry.Apart → o'.settings = o.settings) ∧
    ∀ keep : OptionEntry → Bool, (∀ e ∈ o, keep e = false → e.Idle) →
      settings (o.filter keep) = o.settings := by
  refine ⟨?_, ?_, ?_⟩
  · intro s accepted x
    have hfield := Draft.field_of_check accepted x
    refine ⟨exists_decides o x, ?_, ?_⟩
    · intro v hdecides
      rw [hfield, ← draft, field_draft_of_decides hdecides]
    · intro huntargeted
      rw [hfield, ← draft, field_draft_of_untargeted huntargeted]
      -- The default dialect is in lower case already.
      cases x <;> rfl
  · intro o' hperm apart
    rw [settings_eq, settings_eq, draft_perm hperm apart]
  · intro keep hidle
    rw [settings_eq, settings_eq, draft_filter hidle]

namespace Sample

/-- Options that spell a setting in several ways and name some that there are not. -/
def spellings : Options :=
  [.value "require_name" (.string "load;forin=True"),
   .value "esmImportExport" (.object [("lloc", .bool true), ("tokens", .bool true)]),
   .value "dialect" (.string "BABEL"),
   .value "esm_import_export_lloc" (.int 0),
   .value "templateExpression" (.bool false),
   .value "requireName" (.string "fetch"),
   .resolver .snakeCase ⟨"nothing", fun _ => .null⟩]

/-- The settings that they describe. -/
def spelled : Settings :=
  { requireName := "fetch", dialect := "babel", esmLloc := .int 0,
    resolver := some ⟨"nothing", fun _ => .null⟩ }

end Sample

/-- The last spelling of a name decides, a group can be overruled, and the value of a group that is
no object does not count. Without the first two options no two have a common target. -/
theorem settings_by_last_target_spellings :
    let o := Sample.spellings
    let s := Sample.spelled
    o.settings = .ok s ∧
    o.Decides (.flag .esmLloc) (.value (.int 0)) ∧ s.field (.flag .esmLloc) = .value (.int 0) ∧
    o.Decides .dialect (.value (.string "BABEL")) ∧ s.field .dialect = .value (.string "babel") ∧
    (∀ e ∈ o, ¬e.Targets (.flag .templateHalstead)) ∧
    s.field (.flag .templateHalstead) = .value (.bool true) ∧
    (o.drop 2).Pairwise OptionEntry.Apart ∧ settings (o.drop 2).reverse = settings (o.drop 2) ∧
    settings (o.filter fun e => e.key != "templateExpression") = .ok s := by
  intro o s
  have haccepted : o.settings = .ok s := rfl
  have hlloc : o.Decides (.flag .esmLloc) (.value (.int 0)) :=
    ⟨o.take 3, _, o.drop 4, rfl, .named (.flag .esmLloc) (.int 0), by decide⟩
  have hdialect : o.Decides .dialect (.value (.string "BABEL")) :=
    ⟨o.take 2, _, o.drop 3, rfl, .named .dialect (.string "BABEL"), by decide⟩
  have htemplate : ∀ e ∈ o, ¬e.Targets (.flag .templateHalstead) := by decide
  have hapart : (o.drop 2).Pairwise OptionEntry.Apart := by decide
  have hkeep : ∀ e ∈ o, (e.key != "templateExpression") = false → e.Idle := by decide
  obtain ⟨hdecided, -, hfilter⟩ := settings_by_last_target o
  obtain ⟨-, hperm, -⟩ := settings_by_last_target (o.drop 2)
  exact ⟨haccepted, hlloc, (hdecided s haccepted _).2.1 _ hlloc, hdialect,
    (hdecided s haccepted _).2.1 _ hdialect, htemplate, (hdecided s haccepted _).2.2 htemplate,
    hapart, hperm _ (List.reverse_perm _).symm hapart, (hfilter _ hkeep).trans haccepted⟩

end Options

end CodeMetrics
