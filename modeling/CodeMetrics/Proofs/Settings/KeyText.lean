import CodeMetrics.Proofs.Settings.CacheKey

/-!
# `CodeMetrics.Proofs.Settings.KeyText`: keys with a resolver

A key ends with the name of the resolver, if there is one. The name of the loading function stands
in the middle of the key and may be any text, also one that looks like the end of a key. What stands
behind the last semicolon still says whether there is a resolver: it begins with the word
`resolver` if there is one and with the last setting otherwise, and neither holds a semicolon. So
the end can be taken off (`resolver_of_cacheKey_eq`), and the rest is the key of the same settings
without a resolver, which can be taken apart as other keys can.

Settings whose flags are truth values show all that they hold, so that a key says everything about
them but what the resolver does (`cacheKey_eq_iff`).
-/

set_option autoImplicit false

namespace CodeMetrics

namespace Text

/-- What stands behind the last semicolon can be told from what is before it. -/
theorem last_semicolon_inj {l l' r r' : List Char} (hr : ';' ∉ r) (hr' : ';' ∉ r')
    (h : l ++ ';' :: r = l' ++ ';' :: r') : l = l' ∧ r = r' := by
  rcases semicolon_cases h with hsame | ⟨gap, -, hgap⟩ | ⟨gap, -, hgap⟩
  · exact hsame
  · rw [hgap] at hr
    simp at hr
  · rw [hgap] at hr'
    simp at hr'

end Text

namespace Settings

open Text

/-- Settings whose flags are truth values, with a known dialect, and with a resolver, if any, whose
name has no semicolon. -/
structure Plain (s : Settings) : Prop where
  flags : ∀ f, ∃ b, s.value f = .bool b
  dialect : s.dialect ∈ dialects
  resolver : ∀ r, s.resolver = some r → ';' ∉ r.name.toList

variable {s t : Settings}

theorem withoutResolver_of_none (h : s.resolver = none) : s.withoutResolver = s := by
  rw [withoutResolver, ← h]

/-- A resolver comes last in a key. -/
theorem toList_cacheKey_of_resolver {r : Resolver} (h : s.resolver = some r) :
    s.cacheKey.toList = s.withoutResolver.cacheKey.toList ++ ';' :: shownResolver r := by
  rw [toList_cacheKey, toList_cacheKey, h]
  exact intercalate_concat _ _ _

/-- Without a resolver, a setting comes last. -/
theorem toList_cacheKey_withoutResolver (s : Settings) : ∃ front,
    s.withoutResolver.cacheKey.toList = front ++ ';' :: shownPart ("trycatch", s.trycatch) := by
  rw [toList_cacheKey]
  exact ⟨_, intercalate_concat _ (s.parts.tail.dropLast.map shownPart) _⟩

namespace Plain

/-- The last setting has no semicolon. -/
theorem notMem_shownPart (h : s.Plain) : ';' ∉ shownPart ("trycatch", s.trycatch) := by
  obtain ⟨b, hb⟩ := h.flags .trycatch
  rw [show s.trycatch = .bool b from hb]
  cases b <;> decide

theorem notMem_shownResolver (h : s.Plain) {r : Resolver} (hr : s.resolver = some r) :
    ';' ∉ shownResolver r := by
  rw [shownResolver, String.toList_append, List.mem_append]
  rintro (hword | hname)
  · exact absurd hword (by decide)
  · exact h.resolver r hr hname

/-- A key with a resolver is not one without. -/
theorem cacheKey_ne (hs : s.Plain) (ht : t.Plain) (hnone : s.resolver = none) {r : Resolver}
    (hr : t.resolver = some r) : s.cacheKey ≠ t.cacheKey := by
  intro same
  obtain ⟨front, hfront⟩ := toList_cacheKey_withoutResolver s
  have hkeys := congrArg String.toList same
  rw [← withoutResolver_of_none hnone, hfront, toList_cacheKey_of_resolver hr] at hkeys
  obtain ⟨-, hlast⟩ :=
    last_semicolon_inj hs.notMem_shownPart (ht.notMem_shownResolver hr) hkeys
  -- One begins with the last setting, the other with the word for a resolver.
  simp [shownPart, shownResolver] at hlast

/-- The end of a key says which resolver there is, and the rest is the key without it. -/
theorem resolver_of_cacheKey_eq (hs : s.Plain) (ht : t.Plain) (same : s.cacheKey = t.cacheKey) :
    s.resolver.map Resolver.name = t.resolver.map Resolver.name ∧
      s.withoutResolver.cacheKey = t.withoutResolver.cacheKey := by
  cases hr : s.resolver with
  | none =>
    cases hr' : t.resolver with
    | none =>
      rw [withoutResolver_of_none hr, withoutResolver_of_none hr']
      exact ⟨rfl, same⟩
    | some r' => exact absurd same (cacheKey_ne hs ht hr hr')
  | some r =>
    cases hr' : t.resolver with
    | none => exact absurd same.symm (cacheKey_ne ht hs hr' hr)
    | some r' =>
      -- What is shown of a plain resolver has no semicolon, so it is what follows the last one.
      have hkeys := congrArg String.toList same
      rw [toList_cacheKey_of_resolver hr, toList_cacheKey_of_resolver hr'] at hkeys
      obtain ⟨hfront, hlast⟩ :=
        last_semicolon_inj (hs.notMem_shownResolver hr) (ht.notMem_shownResolver hr') hkeys
      rw [shownResolver, shownResolver, String.toList_append, String.toList_append] at hlast
      have hname : r.name = r'.name := String.toList_inj.mp (List.append_cancel_left hlast)
      exact ⟨congrArg some hname, String.toList_inj.mp hfront⟩

/-- A truth value is shown as itself, and as nothing else. -/
theorem value_eq_of_display_eq (hs : s.Plain) (ht : t.Plain) {f : Flag}
    (h : (s.value f).display = (t.value f).display) : s.value f = t.value f := by
  obtain ⟨b, hb⟩ := hs.flags f
  obtain ⟨c, hc⟩ := ht.flags f
  rw [hb, hc] at h ⊢
  cases b with
  | true =>
    cases c with
    | true => rfl
    | false => exact absurd h (by decide)
  | false =>
    cases c with
    | true => exact absurd h (by decide)
    | false => rfl

theorem unmistakable (h : s.Plain) (f : Flag) : (s.value f).unmistakable := by
  obtain ⟨b, hb⟩ := h.flags f
  rw [hb]
  rfl

end Plain

/-- Among settings whose flags are truth values, the key says all but what the resolver does: the
flags, the dialect, the name of the loading function, whether there is a resolver and what it is
called. The name of the loading function may be any text. -/
theorem cacheKey_eq_iff (hs : s.Plain) (ht : t.Plain) :
    s.cacheKey = t.cacheKey ↔
      (∀ f, s.value f = t.value f) ∧ s.dialect = t.dialect ∧ s.requireName = t.requireName ∧
        s.resolver.map Resolver.name = t.resolver.map Resolver.name := by
  constructor
  · intro same
    obtain ⟨hresolver, hrest⟩ := hs.resolver_of_cacheKey_eq ht same
    -- Nothing but the resolver was taken off, so the flags and names are those of `s` and `t`.
    obtain ⟨hflags, hname, hdialect⟩ :=
      display_eq_of_cacheKey_eq (s := s.withoutResolver) (t := t.withoutResolver) rfl rfl
        hs.dialect ht.dialect (fun f => .inr ⟨hs.unmistakable f, ht.unmistakable f⟩) hrest
    refine ⟨?_, hdialect, hname, hresolver⟩
    intro f
    exact hs.value_eq_of_display_eq ht (hflags f)
  · rintro ⟨hvalue, hdialect, hname, hresolver⟩
    have hrest : s.withoutResolver = t.withoutResolver :=
      eq_of_value hvalue hname hdialect rfl
    cases hr : s.resolver with
    | none =>
      have hr' : t.resolver = none := by simpa [hr] using hresolver
      rw [← withoutResolver_of_none hr, hrest, withoutResolver_of_none hr']
    | some r =>
      obtain ⟨r', hr', hnamed⟩ : ∃ r', t.resolver = some r' ∧ r'.name = r.name := by
        simpa [hr, eq_comm] using hresolver
      apply String.toList_inj.mp
      rw [toList_cacheKey_of_resolver hr, toList_cacheKey_of_resolver hr', hrest, shownResolver,
        shownResolver, hnamed]

namespace Sample

/-- Settings with some loading function and some resolver. -/
def loading (requireName : String) (resolver : Option Resolver) : Settings :=
  { forin := .bool true, dialect := "babel", requireName, resolver }

theorem plain_loading (requireName : String) (resolver : Option Resolver)
    (h : ∀ r, resolver = some r → ';' ∉ r.name.toList) : (loading requireName resolver).Plain where
  flags f := by cases f <;> exact ⟨_, rfl⟩
  dialect := List.mem_cons_of_mem _ List.mem_cons_self
  resolver := h

/-- A name that reads like all that follows it in a key. -/
def imitation : String :=
  "load;strict=False;switchcase=True;template_expression_halstead=True;trycatch=False;" ++
    "resolver=prefix"

end Sample

/-- Two settings have resolvers of the same name that do different things, which the key does not
say. The third settings have no resolver, but a loading function whose name says that there is
one. -/
theorem cacheKey_eq_iff_imitation :
    let s := Sample.loading "load" (some ⟨"prefix", id⟩)
    let t := Sample.loading "load" (some ⟨"prefix", fun _ => .null⟩)
    let u := Sample.loading Sample.imitation none
    s.Plain ∧ t.Plain ∧ u.Plain ∧ s.cacheKey = t.cacheKey ∧ s.cacheKey ≠ u.cacheKey := by
  intro s t u
  have hnamed : ∀ resolve : Document → Document, ∀ r : Resolver,
      some ⟨"prefix", resolve⟩ = some r → ';' ∉ r.name.toList := by
    rintro resolve r ⟨⟩
    show ';' ∉ "prefix".toList
    decide
  have hs : s.Plain := Sample.plain_loading _ _ (hnamed id)
  have ht : t.Plain := Sample.plain_loading _ _ (hnamed _)
  have hu : u.Plain := Sample.plain_loading _ _ nofun
  refine ⟨hs, ht, hu, (cacheKey_eq_iff hs ht).mpr ⟨fun _ => rfl, rfl, rfl, rfl⟩, ?_⟩
  intro same
  obtain ⟨-, -, -, hresolver⟩ := (cacheKey_eq_iff hs hu).mp same
  cases hresolver

end Settings

end CodeMetrics
