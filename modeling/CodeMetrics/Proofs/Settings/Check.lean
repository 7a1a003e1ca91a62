import CodeMetrics.Proofs.Result
import CodeMetrics.Settings.Options

/-!
# `CodeMetrics.Proofs.Settings.Check`: what the check of a draft lets through

`Draft.check` looks at the dialect, at the name of the loading function and at the resolver. Each
of the three checks succeeds on some values only, and the lemmas here say on which ones and with
what. `Draft.check_eq_ok_iff` puts them together: it says which settings come out of which draft.

A `Setting` is one of the thirteen things that can be set. Settings and drafts hold a value under
each of them (`Settings.field`, `Draft.field`), and the check keeps these values, except that it
puts a dialect into lower case (`Draft.field_of_check`).
-/

set_option autoImplicit false

namespace CodeMetrics

/-! ### Single settings -/

/-- What can be set. -/
inductive Setting where
  | flag (f : Flag)
  | requireName
  | dialect
  | resolver
  deriving DecidableEq

/-- What has to be given as resolver to have this one. -/
def ResolverChoice.ofResolver : Option Resolver → ResolverChoice
  | none => .value .null
  | some r => .resolver r

/-- What settings hold. -/
def Settings.field (s : Settings) : Setting → ResolverChoice
  | .flag f => .value (s.value f)
  | .requireName => .value (.string s.requireName)
  | .dialect => .value (.string s.dialect)
  | .resolver => .ofResolver s.resolver

/-- What a draft holds. -/
def Draft.field (d : Draft) : Setting → ResolverChoice
  | .flag f => .value (d.flag f)
  | .requireName => .value d.requireName
  | .dialect => .value d.dialect
  | .resolver => d.resolver

/-- What becomes of a value that is given. A dialect is put into lower case, and nothing else is
changed. -/
def Setting.stored : Setting → ResolverChoice → ResolverChoice
  | .dialect, .value (.string text) => .value (.string (Text.lower text))
  | _, given => given

/-- The settings without their resolver. -/
def Settings.withoutResolver (s : Settings) : Settings :=
  { s with resolver := none }

/-- Settings are what they hold. -/
theorem Settings.eq_of_value {s t : Settings} (hvalue : ∀ f, s.value f = t.value f)
    (hname : s.requireName = t.requireName) (hdialect : s.dialect = t.dialect)
    (hresolver : s.resolver = t.resolver) : s = t := by
  have hlogicalor : s.logicalor = t.logicalor := hvalue .logicalor
  have hswitchcase : s.switchcase = t.switchcase := hvalue .switchcase
  have hforin : s.forin = t.forin := hvalue .forin
  have htrycatch : s.trycatch = t.trycatch := hvalue .trycatch
  have hnewmi : s.newmi = t.newmi := hvalue .newmi
  have hcommonjs : s.commonjs = t.commonjs := hvalue .commonjs
  have hesmHalstead : s.esmHalstead = t.esmHalstead := hvalue .esmHalstead
  have hesmLloc : s.esmLloc = t.esmLloc := hvalue .esmLloc
  have htemplate : s.templateHalstead = t.templateHalstead := hvalue .templateHalstead
  have hstrict : s.strict = t.strict := hvalue .strict
  cases s
  cases t
  simp_all

namespace Draft

/-- A draft is what it holds. -/
theorem eq_of_field {d d' : Draft} (h : ∀ x, d.field x = d'.field x) : d = d' := by
  have hflag : d.flag = d'.flag := funext fun f => ResolverChoice.value.inj (h (.flag f))
  have hname : d.requireName = d'.requireName := ResolverChoice.value.inj (h .requireName)
  have hdialect : d.dialect = d'.dialect := ResolverChoice.value.inj (h .dialect)
  have hresolver : d.resolver = d'.resolver := h .resolver
  cases d
  cases d'
  simp_all

/-- The defaults of a draft are those of settings. -/
theorem field_default (x : Setting) : default.field x = ({} : Settings).field x := by
  cases x with
  | flag f => rfl
  | requireName => rfl
  | dialect => rfl
  | resolver => rfl

/-! ### The three checks -/

/-- A dialect is a text that names a known one, in any case. -/
theorem checkDialect_eq_ok_iff {given : Document} {name : String} :
    checkDialect given = .ok name ↔
      ∃ text, given = .string text ∧ Text.lower text = name ∧ name ∈ Settings.dialects := by
  constructor
  · intro h
    cases given with
    | string text =>
      rw [checkDialect] at h
      by_cases hknown : Settings.dialects.contains (Text.lower text)
      · rw [if_pos hknown] at h
        cases h
        exact ⟨text, rfl, rfl, List.contains_iff_mem.mp hknown⟩
      · rw [if_neg hknown] at h
        cases h
    | _ => cases h
  · rintro ⟨text, rfl, rfl, hknown⟩
    rw [checkDialect, if_pos (List.contains_iff_mem.mpr hknown)]

/-- The name of a loading function is a text that is not blank. -/
theorem checkRequireName_eq_ok_iff {given : Document} {name : String} :
    checkRequireName given = .ok name ↔
      given = .string name ∧ Text.isBlankText name = false := by
  constructor
  · intro h
    cases given with
    | string text =>
      rw [checkRequireName] at h
      by_cases hblank : Text.isBlankText text
      · rw [if_pos hblank] at h
        cases h
      · rw [if_neg hblank] at h
        cases h
        exact ⟨rfl, Bool.eq_false_iff.mpr hblank⟩
    | _ => cases h
  · rintro ⟨rfl, hblank⟩
    rw [checkRequireName, hblank]
    rfl

/-- A resolver is a resolver, and null stands for none. -/
theorem checkResolver_eq_ok_iff {given : ResolverChoice} {r : Option Resolver} :
    checkResolver given = .ok r ↔ given = .ofResolver r := by
  constructor
  · intro h
    cases given with
    | resolver own =>
      cases h
      rfl
    | value d =>
      cases d with
      | null =>
        cases h
        rfl
      | _ => cases h
  · rintro rfl
    cases r with
    | none => rfl
    | some own => rfl

/-- Settings come out of a draft if each check gives what they hold and the flags are the same. -/
theorem check_eq_ok_iff {d : Draft} {s : Settings} :
    d.check = .ok s ↔
      checkDialect d.dialect = .ok s.dialect ∧ checkRequireName d.requireName = .ok s.requireName ∧
        checkResolver d.resolver = .ok s.resolver ∧ ∀ f, s.value f = d.flag f := by
  constructor
  · intro h
    obtain ⟨dialect, hdialect, h⟩ := exists_of_bind_eq_ok h
    obtain ⟨requireName, hname, h⟩ := exists_of_bind_eq_ok h
    obtain ⟨resolver, hresolver, h⟩ := exists_of_bind_eq_ok h
    cases h
    refine ⟨hdialect, hname, hresolver, ?_⟩
    intro f
    cases f <;> rfl
  · rintro ⟨hdialect, hname, hresolver, hvalue⟩
    rw [check, hdialect, bind_eq_of_eq_ok rfl, hname, bind_eq_of_eq_ok rfl, hresolver,
      bind_eq_of_eq_ok rfl]
    refine congrArg Except.ok (Settings.eq_of_value ?_ rfl rfl rfl)
    intro f
    rw [hvalue]
    cases f <;> rfl

/-- The check keeps what a draft holds, but for the case of the dialect. -/
theorem field_of_check {d : Draft} {s : Settings} (h : d.check = .ok s) (x : Setting) :
    s.field x = x.stored (d.field x) := by
  obtain ⟨hdialect, hname, hresolver, hvalue⟩ := check_eq_ok_iff.mp h
  cases x with
  | flag f => exact congrArg ResolverChoice.value (hvalue f)
  | requireName =>
    obtain ⟨hgiven, -⟩ := checkRequireName_eq_ok_iff.mp hname
    show ResolverChoice.value (.string s.requireName) = .value d.requireName
    rw [hgiven]
  | dialect =>
    obtain ⟨text, hgiven, hlower, -⟩ := checkDialect_eq_ok_iff.mp hdialect
    show ResolverChoice.value (.string s.dialect) = Setting.dialect.stored (.value d.dialect)
    rw [hgiven, ← hlower]
    rfl
  | resolver => exact (checkResolver_eq_ok_iff.mp hresolver).symm

end Draft

end CodeMetrics
