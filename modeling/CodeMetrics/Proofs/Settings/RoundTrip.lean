import CodeMetrics.Proofs.Settings.Resolution

/-!
# `CodeMetrics.Proofs.Settings.RoundTrip`: settings describe themselves

`Settings.toOptions` writes settings as options, and a report repeats them as a document
(`Settings.echo`). Neither uses the names of the settings throughout: some are written in camel
case and some inside groups. Reading the options back leads to a draft that holds just what the
settings hold (`draft_toOptions`). The check passes such a draft and returns the settings, because
what was checked once passes again (`Settings.Checked.check_draft`).

So settings that were made from options are made from their own options again, and different
settings are written differently (`Options.settings_round_trip`).
-/

set_option autoImplicit false

namespace CodeMetrics

open Assignment

namespace Settings

/-- The draft that holds what the settings hold. -/
def draft (s : Settings) : Draft :=
  { flag := s.value
    requireName := .string s.requireName
    dialect := .string s.dialect
    resolver := .ofResolver s.resolver }

/-- Settings that a check can return. -/
structure Checked (s : Settings) : Prop where
  dialect : s.dialect ∈ dialects
  requireName : Text.isBlankText s.requireName = false

theorem checked_of_check {d : Draft} {s : Settings} (h : d.check = .ok s) : s.Checked := by
  obtain ⟨hdialect, hname, -, -⟩ := Draft.check_eq_ok_iff.mp h
  obtain ⟨-, -, -, hknown⟩ := Draft.checkDialect_eq_ok_iff.mp hdialect
  exact ⟨hknown, (Draft.checkRequireName_eq_ok_iff.mp hname).2⟩

/-- The known dialects are named in lower case. -/
theorem lower_of_mem_dialects : ∀ name ∈ dialects, Text.lower name = name := by
  decide

/-- What was checked once passes again. -/
theorem Checked.check_draft {s : Settings} (h : s.Checked) : s.draft.check = .ok s := by
  refine Draft.check_eq_ok_iff.mpr ⟨?_, ?_, ?_, ?_⟩
  · have hlower := lower_of_mem_dialects s.dialect h.dialect
    exact Draft.checkDialect_eq_ok_iff.mpr ⟨s.dialect, rfl, hlower, h.dialect⟩
  · exact Draft.checkRequireName_eq_ok_iff.mpr ⟨rfl, h.requireName⟩
  · exact Draft.checkResolver_eq_ok_iff.mpr rfl
  · intro f
    rfl

/-- A resolver does not matter for the check. -/
theorem Checked.withoutResolver {s : Settings} (h : s.Checked) : s.withoutResolver.Checked :=
  ⟨h.dialect, h.requireName⟩

/-! ### Options -/

/-- The effects of the options that settings are written as, if this is given as resolver. -/
def effects (s : Settings) (given : Option ResolverChoice) : List Assignment :=
  .flag .commonjs s.commonjs :: ((given.map Assignment.resolver).toList ++
    [.dialect (.string s.dialect), .flag .esmHalstead s.esmHalstead, .flag .esmLloc s.esmLloc,
     .flag .forin s.forin, .flag .logicalor s.logicalor, .flag .newmi s.newmi,
     .requireName (.string s.requireName), .flag .strict s.strict, .flag .switchcase s.switchcase,
     .flag .templateHalstead s.templateHalstead, .flag .trycatch s.trycatch])

/-- The effects leave what the settings hold, and no resolver if none is given. -/
theorem foldl_effects (s : Settings) (given : Option ResolverChoice) :
    (s.effects given).foldl Draft.apply Draft.default =
      { s.draft with resolver := given.getD (.ofResolver none) } := by
  refine Draft.eq_of_field ?_
  intro x
  cases given with
  | none =>
    cases x with
    | flag f => cases f <;> rfl
    | _ => rfl
  | some choice =>
    cases x with
    | flag f => cases f <;> rfl
    | _ => rfl

/-- Reading the options back leads to what the settings hold. -/
theorem draft_toOptions (s : Settings) : Options.draft s.toOptions = s.draft := by
  have heffects : s.toOptions.flatMap ofEntry = s.effects (some (.ofResolver s.resolver)) := by
    unfold toOptions
    cases s.resolver with
    | none => rfl
    | some r => rfl
  rw [Options.draft, heffects, foldl_effects]
  rfl

/-- The options that a report repeats. A document cannot hold a resolver. -/
def echoOptions (s : Settings) : Options :=
  s.toOptions.filter fun e => e.key != resolverKey

theorem ofDocument_echo (s : Settings) : Options.ofDocument s.echo = .ok s.echoOptions := by
  unfold echoOptions toOptions
  cases s.resolver with
  | none => rfl
  | some r => rfl

/-- Reading these back leads to the same, without a resolver. -/
theorem draft_echoOptions (s : Settings) : s.echoOptions.draft = s.withoutResolver.draft := by
  have heffects : s.echoOptions.flatMap ofEntry = s.effects none := by
    unfold echoOptions toOptions
    cases s.resolver with
    | none => rfl
    | some r => rfl
  rw [Options.draft, heffects, foldl_effects]
  rfl

end Settings

namespace Options

/-- Settings that were made from options are made from their own options again, and from the
document that a report repeats them as, but for the resolver that a document cannot hold. Different
settings have different options. -/
theorem settings_round_trip {o : Options} {s : Settings} (accepted : o.settings = .ok s) :
    s.toOptions.settings = .ok s ∧
    (ofDocument s.echo >>= settings) = .ok s.withoutResolver ∧
    ∀ (o' : Options) (t : Settings), o'.settings = .ok t → s.toOptions = t.toOptions → s = t := by
  have hback {o : Options} {s : Settings} (accepted : o.settings = .ok s) :
      s.toOptions.settings = .ok s := by
    rw [settings_eq, Settings.draft_toOptions]
    exact (Settings.checked_of_check accepted).check_draft
  refine ⟨hback accepted, ?_, ?_⟩
  · rw [Settings.ofDocument_echo, bind_eq_of_eq_ok rfl, settings_eq, Settings.draft_echoOptions]
    exact (Settings.checked_of_check accepted).withoutResolver.check_draft
  · intro o' t accepted' hsame
    have hs := hback accepted
    rw [hsame, hback accepted'] at hs
    exact (Except.ok.inj hs).symm

namespace Sample

/-- Options with values of several sorts, in every spelling. -/
def mixed : Options :=
  [.value "logicalor" (.list []), .value "newmi" (.string "no"),
   .value "esmImportExport" (.object [("lloc", .int 7)]),
   .value "esm_import_export_halstead" (.object [("lloc", .null)]),
   .value "requireName" (.string " load;strict=True "), .value "dialect" (.string "Babel"),
   .resolver .snakeCase ⟨"constant", fun _ => .string "same"⟩]

/-- The settings that they describe. -/
def mixedSettings : Settings :=
  { logicalor := .list []
    newmi := .string "no"
    esmLloc := .int 7
    esmHalstead := .object [("lloc", .null)]
    requireName := " load;strict=True "
    dialect := "babel"
    resolver := some ⟨"constant", fun _ => .string "same"⟩ }

end Sample

/-- Settings with such values come back as they are, also from a report, and they are not written
like the defaults. -/
theorem settings_round_trip_mixed :
    Sample.mixed.settings = .ok Sample.mixedSettings ∧
    Sample.mixedSettings.toOptions.settings = .ok Sample.mixedSettings ∧
    (ofDocument Sample.mixedSettings.echo >>= settings) = .ok Sample.mixedSettings.withoutResolver ∧
    settings [] = .ok {} ∧ Sample.mixedSettings.toOptions ≠ ({} : Settings).toOptions := by
  have haccepted : Sample.mixed.settings = .ok Sample.mixedSettings := rfl
  have hdefault : settings [] = .ok {} := rfl
  obtain ⟨hback, hecho, hinj⟩ := settings_round_trip haccepted
  refine ⟨haccepted, hback, hecho, hdefault, ?_⟩
  intro hsame
  have hname := congrArg Settings.requireName (hinj [] {} hdefault hsame)
  exact absurd hname (by decide)

end Options

end CodeMetrics
