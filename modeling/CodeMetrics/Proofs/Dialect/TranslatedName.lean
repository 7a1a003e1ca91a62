import CodeMetrics.Proofs.Dialect.PortableRule
import CodeMetrics.Proofs.Dialect.Table

/-!
# `CodeMetrics.Proofs.Dialect.TranslatedName`: names and texts at translated nodes

A well-formed node and its translation have the same static name (`name?_translate`), the same
name as a parameter (`parameterName_translate`) and stand for the same text, if for any
(`stringValue_translate`). A node of a kind that both dialects have, or of one that only changes
its name, is read field by field (`Mirrors`).
-/

set_option autoImplicit false

namespace CodeMetrics

namespace Babel

open Document

/-! ### Kinds that both dialects have -/

/-- A shared kind has a rule. -/
theorem exists_rule {kind : String} (h : isShared kind) :
    ∃ rule, Estree.dialect.rule? kind = some rule ∧ (kind, rule) ∈ Estree.rules := by
  obtain ⟨rule, hrule⟩ := Option.isSome_iff_exists.mp h
  exact ⟨rule, hrule, Dialect.mem_of_find hrule⟩

/-- Nodes of shared kinds stay as they are. -/
theorem form_of_shared {kind : String} (h : isShared kind) : form kind = .kept := by
  obtain ⟨rule, -, hmem⟩ := exists_rule h
  have hall : ∀ entry ∈ Estree.rules.map Prod.fst, form entry = .kept := by decide +kernel
  exact hall kind (List.mem_map_of_mem hmem)

/-- Both dialects have the same rule for a shared kind. -/
theorem rule?_of_shared {kind : String} (h : isShared kind) :
    dialect.rule? kind = Estree.dialect.rule? kind := by
  obtain ⟨rule, -, hmem⟩ := exists_rule h
  exact Dialect.rule?_extend_of_not fun own hown => (overrides_new _ hmem own hown).symm

/-- A kind that Babel has of its own has the rule that it is given there. -/
theorem rule?_own {kind : String} {rule : Rule}
    (h : Dialect.find kind overrides.reverse = some rule) : dialect.rule? kind = some rule := by
  rw [dialect, Dialect.rule?_extend, h, Option.some_or]

/-! ### Parts of well-formed values -/

variable {fields : List (String × Document)} {kind : String}

/-- Where the kind stays, the fields are translated one by one. -/
theorem translate_of_plain (h : isPlain (.object fields)) :
    translate (.object fields) = .object (translateFields fields) := by
  unfold isPlain at h
  cases hkind : (Document.object fields).kind? with
  | none => exact translate_record hkind
  | some kind =>
    rw [hkind] at h
    rw [translate_object hkind, form_of_shared h, Form.apply]

theorem field?_translate {d : Document} (h : isPlain d) {key : String} (hkey : key ∉ nonChildKeys) :
    (translate d).field? key = (d.field? key).map translate := by
  cases d with
  | object fields => rw [translate_of_plain h, field?, field?, lookup_translateFields hkey]
  | _ => rfl

theorem get_translate {d : Document} (h : isPlain d) {key : String} (hkey : key ∉ nonChildKeys) :
    (translate d).get key = translate (d.get key) := by
  rw [Document.get, Document.get, field?_translate h hkey]
  cases d.field? key <;> rfl

theorem get_translateFields {key : String} (h : key ∉ nonChildKeys) :
    (Document.object (translateFields fields)).get key =
      translate ((Document.object fields).get key) := by
  rw [Document.get, field?, lookup_translateFields h, Document.get, field?]
  cases lookup key fields <;> rfl

theorem isPlain_of_shared {d : Document} (hkind : d.kind? = some kind) (known : isShared kind) :
    isPlain d := by
  rwa [isPlain, hkind]

theorem wellFormed_item {items : List Document} (h : wellFormed (.list items)) :
    ∀ item ∈ items, wellFormed item := by
  rw [wellFormed] at h
  induction items with
  | nil => simp
  | cons d rest ih =>
    rw [wellFormedItems, Bool.and_eq_true] at h
    exact List.forall_mem_cons.mpr ⟨h.1, ih h.2⟩

theorem wellFormed_field (h : wellFormedFields fields) {field : String × Document}
    (hfield : field ∈ fields) (hkey : field.1 ∉ nonChildKeys) : wellFormed field.2 := by
  induction fields with
  | nil => cases hfield
  | cons first rest ih =>
    rw [wellFormedFields, Bool.and_eq_true, Bool.or_eq_true] at h
    rcases List.mem_cons.mp hfield with rfl | hfield
    · exact h.1.resolve_left (by simpa using hkey)
    · exact ih h.2 hfield

theorem wellFormed_get (h : wellFormedFields fields) {key : String} (hkey : key ∉ nonChildKeys) :
    wellFormed ((Document.object fields).get key) := by
  rw [Document.get, field?]
  cases hlookup : lookup key fields with
  | none => rfl
  | some value => exact wellFormed_field h (mem_of_lookup hlookup) hkey

/-- A reading that tells only some kinds apart from all others is the same at a node of none of
these kinds, if its translation is of none of them either. -/
theorem reads_same {α : Type} {read : Document → α} {kinds : List String} {other : α}
    (hread : ∀ {d : Document}, (∀ kind, d.kind? = some kind → kind ∉ kinds) → read d = other)
    {d : Document} (h : ∀ kind, d.kind? = some kind → kind ∉ kinds ∧ estreeKind kind ∉ kinds) :
    read (translate d) = read d := by
  have htranslated : ∀ kind, (translate d).kind? = some kind → kind ∉ kinds := by
    rw [kind?_translate]
    rintro _ hother
    obtain ⟨kind, hkind, rfl⟩ := Option.map_eq_some_iff.mp hother
    exact (h kind hkind).2
  rw [hread htranslated, hread fun kind hkind => (h kind hkind).1]

/-! ### Kinds of parts -/

/-- The kinds that translated nodes get. -/
def newKinds : List String :=
  ["Literal", "Property", "MethodDefinition", "PropertyDefinition", "PrivateIdentifier",
   "ExpressionStatement", "SpreadElement", "RestElement"]

theorem estreeKind_cases (kind : String) : estreeKind kind = kind ∨ estreeKind kind ∈ newKinds := by
  unfold estreeKind
  cases hform : form kind with
  | renamed other =>
    right
    unfold form at hform
    split at hform <;> cases hform <;> decide
  | kept => exact .inl rfl
  | _ => exact .inr (by simp [newKinds])

/-- Kinds that are neither given up nor given to other nodes are found at the same places. -/
theorem kind?_translate_eq {kind : String} (hnew : kind ∉ newKinds) (hkept : estreeKind kind = kind)
    (d : Document) : (translate d).kind? = some kind ↔ d.kind? = some kind := by
  rw [kind?_translate]
  constructor
  · intro h
    obtain ⟨other, hother, htranslated⟩ := Option.map_eq_some_iff.mp h
    rcases estreeKind_cases other with heq | hmem
    · rw [hother, ← htranslated, heq]
    · exact absurd (htranslated ▸ hmem) hnew
  · intro h
    rw [h, Option.map_some, hkept]

theorem kindIn_singleton (d : Document) (kind : String) :
    d.kindIn [kind] = decide (d.kind? = some kind) := by
  unfold kindIn
  cases d.kind? with
  | none => rfl
  | some other => simp [eq_comm]

theorem kindIn_translate {kind : String} (hnew : kind ∉ newKinds) (hkept : estreeKind kind = kind)
    (d : Document) : (translate d).kindIn [kind] = d.kindIn [kind] := by
  rw [kindIn_singleton, kindIn_singleton]
  exact decide_eq_decide.mpr (kind?_translate_eq hnew hkept d)

/-- A value and its translation are the same for a rule that does not look inside. -/
theorem resembles_translate (d : Document) : d.Resembles (translate d) := by
  cases d with
  | list items =>
    rw [translate, translateItems_eq_map]
    exact .list (List.length_map _)
  | object fields =>
    obtain ⟨fields', hfields⟩ := exists_translate_object fields
    have hkind := kindIn_translate (by decide) (by decide : estreeKind "FunctionExpression" = _)
      (.object fields)
    have htruthy := truthy_translate (.object fields)
    rw [hfields] at hkind htruthy ⊢
    exact .object (Bool.not_inj htruthy) hkind
  | _ => exact .scalar rfl

/-! ### Fields of well-formed nodes -/

/-- The records that the tokens of a node look into stay records. -/
theorem isPlain_of_innerKeys {rule : Rule} (hrule : dialect.ruleFor (.object fields) = some rule)
    (plain : plainFields fields) {key : String}
    (hkey : key ∈ (rule.operators ++ rule.operands).flatMap innerKeys) :
    isPlain ((Document.object fields).get key) := by
  simp only [plainFields, Bool.and_eq_true, hrule, Option.all_some, List.all_eq_true] at plain
  exact plain.1.2 key hkey

/-- The values that are read as text are no collections. -/
theorem scalar_of_texts (plain : plainFields fields) {value : Document}
    (hvalue : value ∈ dialect.texts (.object fields)) : value.isCollection = false := by
  simp only [plainFields, Bool.and_eq_true, Dialect.plainTexts, List.all_eq_true] at plain
  simpa using plain.1.1.1 value hvalue

/-- No object stands where a list is expected. -/
theorem isObject_of_listKeys (plain : plainFields fields) {key : String} (hkey : key ∈ listKeys) :
    ((Document.object fields).get key).isObject = false := by
  simp only [plainFields, Bool.and_eq_true, List.all_eq_true] at plain
  simpa using plain.1.1.2 key hkey

/-! ### Names -/

theorem literalName?_translate (d : Document) : (translate d).literalName? = d.literalName? := by
  cases d with
  | object fields =>
    obtain ⟨fields', h⟩ := exists_translate_object fields
    rw [h]
    rfl
  | _ => rfl

/-- The kinds of nodes that can have a static name. -/
def namedKinds : List String :=
  ["Identifier", "PrivateIdentifier", "PrivateName", "ThisExpression", "Literal",
   "StringLiteral", "NumericLiteral", "MemberExpression", "OptionalMemberExpression"]

/-- Other nodes have none. -/
theorem name?_eq_none {d : Document} (h : ∀ kind, d.kind? = some kind → kind ∉ namedKinds) :
    d.name? = none := by
  rw [Document.name?_eq]
  unfold nameFrom
  split
  case h_10 => rfl
  all_goals exact absurd (h _ ‹_›) (by decide)

/-- A literal that newly counts as one has no name, so it owns no member by name either way. -/
theorem memberName_translate (owner : Document) (computed : Bool) (key : Option Document) :
    (if computed || (translate owner).kindIn literalKinds then none
      else memberName owner.name? key) =
    if computed || owner.kindIn literalKinds then none else memberName owner.name? key := by
  have hkept : ∀ kind ∈ literalKinds, estreeKind kind ∈ literalKinds := by decide
  have hnew : ∀ kind ∈ namedKinds, estreeKind kind ∈ literalKinds → kind ∈ literalKinds := by decide
  unfold kindIn
  rw [kind?_translate]
  cases hkind : owner.kind? with
  | none => rfl
  | some kind =>
    simp only [Option.map_some, List.contains_eq_mem]
    by_cases hliteral : kind ∈ literalKinds
    · simp [hliteral, hkept kind hliteral]
    · by_cases htranslated : estreeKind kind ∈ literalKinds
      · have hname : owner.name? = none := by
          refine name?_eq_none fun other hother hnamed => ?_
          rw [hkind, Option.some.injEq] at hother
          subst hother
          exact hliteral (hnew kind hnamed htranslated)
        simp [hname, memberName]
      · simp [hliteral, htranslated]

/-- The name of an identifier is no collection. -/
theorem scalar_name (hkind : (Document.object fields).kind? = some kind)
    (h : kind = "Identifier" ∨ kind = "PrivateIdentifier") (plain : plainFields fields) :
    ((Document.object fields).get "name").isCollection = false := by
  refine scalar_of_texts plain (List.mem_append_left _ ?_)
  rcases h with rfl | rfl <;> simp [ownTexts, hkind]

/-- A literal is named by its value. -/
theorem name?_build (value : Document) (own rest : List (String × Document)) :
    (build "Literal" (("value", value) :: own) rest).name? = value.literalName? := by
  rw [Document.name?_eq]
  rfl

/-- A private name is named by its identifier. -/
theorem name?_privateName {d : Document} {name : String} (hkind : d.kind? = some "PrivateName")
    (hid : (d.get "id").kind? = some "Identifier") (hname : (d.get "id").get "name" = .string name) :
    d.name? = some (.string ("#" ++ name)) := by
  have hown : (d.get "id").name? = (Document.string name).ifTruthy := by
    rw [Document.name?_eq, nameFrom, hid, ← hname]
    rfl
  have hdisplay : ((Document.string name).ifTruthy.getD (.string "")).display = name := by
    rw [ifTruthy, truthy]
    cases hempty : name.isEmpty with
    | false => rfl
    | true => exact (String.isEmpty_iff.mp hempty).symm
  rw [Document.name?_eq, nameFrom, hkind]
  show some (Document.string ("#" ++ ((d.get "id").name?.getD (.string "")).display)) = _
  rw [hown, hdisplay]

/-- Translated nodes have the same static names. -/
theorem name?_translate {d : Document} (h : wellFormed d) : (translate d).name? = d.name? := by
  induction hsize : d.size using Nat.strongRecOn generalizing d with
  | ind size ih =>
    cases hkind : d.kind? with
    | none => exact reads_same name?_eq_none (by simp [hkind])
    | some kind =>
      -- Where neither the node nor its translation can have a name there is nothing to show.
      have hnot : kind ∉ namedKinds → estreeKind kind ∉ namedKinds →
          (translate d).name? = d.name? :=
        fun hown htranslated => reads_same name?_eq_none (by simp [hkind, hown, htranslated])
      have hunnamed : kind ∉ namedKinds → d.name? = none := by
        intro hkinds
        exact name?_eq_none (by simp [hkind, hkinds])
      cases d with
      | object fields =>
        obtain ⟨hshape, hbelow⟩ := shape_of_wellFormed hkind h
        cases hshape with
        | shared known plain =>
          have hfields : ∀ {key}, key ∉ nonChildKeys → wellFormed ((Document.object fields).get key) :=
            wellFormed_get (hbelow fun hdirective => by subst hdirective; cases known)
          have hget : ∀ key, key ∉ nonChildKeys →
              ((Document.object (translateFields fields)).get key).name? =
                ((Document.object fields).get key).name? := by
            intro key hkey
            rw [get_translateFields hkey]
            exact ih _ (hsize ▸ size_get_lt_of_kind hkind key) (hfields hkey) rfl
          rw [translate_object hkind, form_of_shared known, Form.apply, Document.name?_eq,
            Document.name?_eq]
          unfold nameFrom
          rw [kind?_translateFields, hkind]
          split
          case h_10 => rfl
          all_goals rename_i heq; cases heq
          · rw [get_translateFields (by decide),
              translate_of_scalar (scalar_name hkind (.inl rfl) plain)]
          · rw [get_translateFields (by decide),
              translate_of_scalar (scalar_name hkind (.inr rfl) plain)]
          · cases known
          · rfl
          · rw [get_translateFields (by decide), literalName?_translate]
          · cases known
          · cases known
          · rw [hget "object" (by decide), hget "property" (by decide)]
            simp only [get_translateFields (show "computed" ∉ nonChildKeys by decide),
              get_translateFields (show "object" ∉ nonChildKeys by decide), truthy_translate,
              memberName_translate]
          · cases known
        | renamed known plain =>
          have hall : ∀ entry ∈ renamings,
              entry.1 ∉ namedKinds ∧ estreeKind entry.1 ∉ namedKinds := by decide +kernel
          exact hnot (hall _ known).1 (hall _ known).2
        | property plain apart => exact hnot (by decide) (by decide)
        | stringLiteral value leaf =>
          rw [translate_object hkind, Document.name?_eq (.object fields), nameFrom, hkind]
          show (build "Literal" [("value", _)] _).name? =
            ((Document.object fields).get "value").literalName?
          rw [name?_build, get_translateFields (by decide), literalName?_translate]
        | numericLiteral value leaf =>
          rw [translate_object hkind, Document.name?_eq (.object fields), nameFrom, hkind]
          show (build "Literal" [("value", _)] _).name? =
            ((Document.object fields).get "value").literalName?
          rw [name?_build, get_translateFields (by decide), literalName?_translate]
        | booleanLiteral value leaf =>
          rw [translate_object hkind, hunnamed (by decide)]
          show (build "Literal" [("value", _)] _).name? = none
          rw [name?_build, get_translateFields (by decide), value]
          rfl
        | nullLiteral leaf =>
          rw [translate_object hkind, hunnamed (by decide)]
          exact name?_build .null [] _
        | regExpLiteral hpattern hflags leaf =>
          rw [translate_object hkind, hunnamed (by decide)]
          exact name?_build .null _ _
        | bigIntLiteral value leaf =>
          rw [translate_object hkind, hunnamed (by decide)]
          exact name?_build .null _ _
        | @privateName name id hname only =>
          have hid : ((Document.object (translateFields fields)).get "id").get "name" =
              .string name := by
            rw [get_translateFields (by decide),
              get_translate (isPlain_of_shared id (by decide)) (by decide), hname]
            rfl
          rw [translate_object hkind, name?_privateName hkind id hname]
          show (build "PrivateIdentifier" [("name", _)] _).name? = _
          rw [hid, Document.name?_eq]
          rfl
        | directive literal value leaf keys only => exact hnot (by decide) (by decide)
        | objectMethod method plain => exact hnot (by decide) (by decide)
        | classMethod known method plain =>
          have hall : ∀ kind ∈ ["ClassMethod", "ClassPrivateMethod"],
              kind ∉ namedKinds ∧ estreeKind kind ∉ namedKinds := by decide +kernel
          exact hnot (hall _ known).1 (hall _ known).2
      | _ => cases hkind

/-! ### Mirrored nodes -/

/-- A shared or renamed node is read field by field. -/
theorem Mirrors.get {except : List String} {a b : Document} (h : Mirrors except a b) (key : String)
    (hkey : key ∉ nonChildKeys) (hexcept : key ∉ except) : b.get key = translate (a.get key) := by
  rw [Document.get, Document.get, h.field? key hkey hexcept]
  cases a.field? key <;> rfl

theorem mirrors_shared (hkind : (Document.object fields).kind? = some kind)
    (known : isShared kind) : Mirrors [] (.object fields) (translate (.object fields)) := by
  rw [translate_object hkind, form_of_shared known]
  exact mirrors_kept

theorem mirrors_renamed {other : String} (hkind : (Document.object fields).kind? = some kind)
    (known : (kind, other) ∈ renamings) :
    Mirrors [] (.object fields) (translate (.object fields)) := by
  have hall : ∀ entry ∈ renamings, form entry.1 = .renamed entry.2 := by decide
  rw [translate_object hkind, hall _ known]
  exact mirrors_build other (by simp) (by simp) (by simp)

theorem mirrors_property (hkind : (Document.object fields).kind? = some "ObjectProperty")
    (apart : ∀ c ∈ (Document.object fields).children [], c.key ∉ ["kind", "method"]) :
    Mirrors ["kind", "method"] (.object fields) (translate (.object fields)) := by
  rw [translate_object hkind]
  exact mirrors_build "Property" (by decide) (by simp [childrenAt]) apart

/-! ### Names of parameters -/

/-- The kinds of parameters that have a name. -/
def parameterKinds : List String :=
  ["Identifier", "AssignmentPattern", "RestElement", "RestProperty", "ObjectPattern",
   "ArrayPattern", "TSParameterProperty"]

/-- Other parameters have none. -/
theorem parameterName_of_other {d : Document}
    (h : ∀ kind, d.kind? = some kind → kind ∉ parameterKinds) :
    d.parameterName = .string "<param>" := by
  rw [Document.parameterName_eq]
  unfold parameterNameFrom
  split
  case h_8 => rfl
  all_goals exact absurd (h _ ‹_›) (by decide)

/-- Translated parameters have the same names. -/
theorem parameterName_translate {d : Document} (h : wellFormed d) :
    (translate d).parameterName = d.parameterName := by
  induction hsize : d.size using Nat.strongRecOn generalizing d with
  | ind size ih =>
    cases hkind : d.kind? with
    | none => exact reads_same parameterName_of_other (by simp [hkind])
    | some kind =>
      -- Only the kinds of `parameterKinds` have names of their own.
      have hnot : kind ∉ parameterKinds → estreeKind kind ∉ parameterKinds →
          (translate d).parameterName = d.parameterName :=
        fun hown htranslated =>
          reads_same parameterName_of_other (by simp [hkind, hown, htranslated])
      cases d with
      | object fields =>
        obtain ⟨hshape, hbelow⟩ := shape_of_wellFormed hkind h
        have hget : kind ≠ "Directive" → ∀ {key}, key ∉ nonChildKeys →
            (translate ((Document.object fields).get key)).parameterName =
              ((Document.object fields).get key).parameterName := by
          intro hdirective key hkey
          exact ih _ (hsize ▸ size_get_lt_of_kind hkind key)
            (wellFormed_get (hbelow hdirective) hkey) rfl
        -- Shared kinds read the same fields. `RestProperty` is the one renamed kind with a name,
        -- and no rebuilt kind has one.
        rcases hshape.kind_cases with ⟨known, plain⟩ | ⟨⟨other, known⟩, plain⟩ | known
        · have hmirrors := mirrors_shared hkind known
          have hkind' : (translate (.object fields)).kind? = some kind := by
            rw [kind?_translate, hkind, Option.map_some, estreeKind, form_of_shared known]
          rw [Document.parameterName_eq, Document.parameterName_eq]
          unfold parameterNameFrom
          rw [hkind', hkind]
          split
          case h_8 => rfl
          all_goals rename_i heq; cases heq
          · rw [hmirrors.field? "name" (by decide) (by simp)]
            rw [map_translate_of_scalar (scalar_name hkind (.inl rfl) plain)]
          · rw [hmirrors.get _ (by decide) (by simp), hget (by decide) (by decide)]
          · rw [hmirrors.get _ (by decide) (by simp), hget (by decide) (by decide)]
          · cases known
          · rfl
          · rfl
          · cases known
        · by_cases hrest : kind = "RestProperty"
          · subst hrest
            have hargument := (mirrors_renamed hkind known).get "argument" (by decide) (by simp)
            rw [Document.parameterName_eq, Document.parameterName_eq, parameterNameFrom,
              parameterNameFrom, kind?_translate, hkind]
            show Document.string ("..." ++ (Document.get _ "argument").parameterName.display) =
              .string ("..." ++ (Document.get _ "argument").parameterName.display)
            rw [hargument, hget (by decide) (by decide)]
          · have hall : ∀ entry ∈ renamings, entry.1 ≠ "RestProperty" →
                entry.1 ∉ parameterKinds ∧ estreeKind entry.1 ∉ parameterKinds := by decide +kernel
            exact hnot (hall _ known hrest).1 (hall _ known hrest).2
        · have hall : ∀ kind ∈ rebuiltKinds,
              kind ∉ parameterKinds ∧ estreeKind kind ∉ parameterKinds := by decide +kernel
          exact hnot (hall _ known).1 (hall _ known).2
      | _ => cases hkind

/-- Translated parameters of a node have the same names. -/
theorem parameterNames_eq {a b : Document} (hget : b.get "params" = translate (a.get "params"))
    (hparams : wellFormed (a.get "params")) :
    b.parameters.map parameterName = a.parameters.map parameterName := by
  unfold parameters
  rw [hget]
  cases hcase : a.get "params" with
  | list items =>
    rw [hcase] at hparams
    rw [translate, translateItems_eq_map]
    simp only [List.map_map]
    exact List.map_congr_left fun item hitem =>
      parameterName_translate (wellFormed_item hparams item hitem)
  | object fields =>
    obtain ⟨fields', hfields⟩ := exists_translate_object fields
    rw [hfields]
  | _ => rfl

/-! ### Records inside of nodes -/

/-- Looking into a record that stays one gives the same text. -/
theorem getIn_eq {a b : Document} {key name : String} (hget : b.get key = translate (a.get key))
    (hname : name ∉ nonChildKeys) (hplain : isPlain (a.get key))
    (hscalar : ((a.get key).get name).isCollection = false) : b.getIn key name = a.getIn key name := by
  refine Resembles.getIn_eq (hget ▸ resembles_translate _) ?_
  rw [hget, field?_translate hplain hname, map_translate_of_scalar hscalar]

/-! ### Paths of dependencies -/

/-- The fields of a node of a shared kind hold what its rule looks for. -/
theorem plain_of_shared (hkind : (Document.object fields).kind? = some kind)
    (known : isShared kind) (h : wellFormed (.object fields)) : plainFields fields := by
  rcases (shape_of_wellFormed hkind h).1.kind_cases with ⟨-, plain⟩ | ⟨-, plain⟩ | hrebuilt
  · exact plain
  · exact plain
  · have hall : ∀ kind ∈ rebuiltKinds, ¬ isShared kind := by decide +kernel
    exact absurd known (hall kind hrebuilt)

/-- What a part of a template stands for is in a record that stays one. -/
theorem isPlain_templateValue (hkind : (Document.object fields).kind? = some "TemplateElement")
    (plain : plainFields fields) : isPlain ((Document.object fields).get "value") := by
  have hrule : dialect.ruleFor (.object fields) = Estree.dialect.rule? "TemplateElement" := by
    rw [Dialect.ruleFor, hkind, Option.bind_some, rule?_of_shared (by decide)]
  exact isPlain_of_innerKeys (hrule.trans rfl) plain (by decide)

/-- The parts of a template stand for the same texts. -/
theorem templateValue_translate (h : wellFormedFields fields)
    (hkind : (Document.object fields).kind? = some "TemplateLiteral") (plain : plainFields fields) :
    (translate (.object fields)).templateValue = (Document.object fields).templateValue := by
  have hmirrors := mirrors_shared hkind (by decide)
  have hquasis : wellFormed ((Document.object fields).get "quasis") := wellFormed_get h (by decide)
  have hobject : ((Document.object fields).get "quasis").isObject = false :=
    isObject_of_listKeys plain (by decide)
  have hparts : ∀ parts, (Document.object fields).get "quasis" = .list parts → ∀ part ∈ parts,
      part.kind? = some "TemplateElement" ∧
        ((part.get "value").get "cooked").isCollection = false := by
    intro parts hparts part hpart
    refine ⟨?_, scalar_of_texts plain (List.mem_append_left _ ?_)⟩
    · simp only [plainFields, hparts, Bool.and_eq_true, List.all_eq_true] at plain
      exact kind?_of_kindIn (plain.2 part hpart)
    · simp only [ownTexts, hkind, hparts]
      exact List.mem_map_of_mem hpart
  have hget : (translate (.object fields)).get "quasis" =
      translate ((Document.object fields).get "quasis") := hmirrors.get _ (by decide) (by simp)
  refine templateValue_eq ?_ (hget ▸ resembles_translate _) hobject ?_
  · rw [hmirrors.get _ (by decide) (by simp), truthy_translate]
  rw [hget, first_translate hobject]
  generalize (Document.object fields).get "quasis" = quasis at hquasis hparts
  cases quasis with
  | list parts =>
    refine .ok ⟨resembles_translate _, ?_⟩
    cases parts with
    | nil => rfl
    | cons part rest =>
      -- The only part is the first one, and what it stands for is read as text.
      obtain ⟨hpart, hcooked⟩ := hparts _ rfl part List.mem_cons_self
      have hwell := wellFormed_item hquasis part List.mem_cons_self
      cases part with
      | object inner =>
        have hvalue := (mirrors_shared hpart (by decide)).get "value" (by decide) (by simp)
        exact getIn_eq hvalue (by decide)
          (isPlain_templateValue hpart (plain_of_shared hpart (by decide) hwell)) hcooked
      | _ => cases hpart
  | string text =>
    refine .ok ⟨resembles_translate _, ?_⟩
    cases text.toList <;> rfl
  | _ => exact .error _

/-- A translated node stands for the same text, if for any. -/
theorem stringValue_translate {d : Document} (h : wellFormed d) :
    (translate d).stringValue = d.stringValue := by
  cases hkind : d.kind? with
  | none => exact reads_same stringValue_of_other (by simp [hkind])
  | some kind =>
    -- Only the kinds of `textKinds` stand for a text, so the other shapes are settled by their
    -- kind.
    have hnot : kind ∉ textKinds → estreeKind kind ∉ textKinds →
        (translate d).stringValue = d.stringValue :=
      fun hown htranslated => reads_same stringValue_of_other (by simp [hkind, hown, htranslated])
    have hliteral : estreeKind kind = "Literal" →
        (translate d).stringValue = literalValue ((translate d).get "value") := by
      intro htranslated
      refine stringValue_of_literal (.inl ?_)
      rw [kind?_translate, hkind, Option.map_some, htranslated]
    have hother : kind ∉ textKinds → d.stringValue = .ok none :=
      fun hown => stringValue_of_other (by simp [hkind, hown])
    cases d with
    | object fields =>
      obtain ⟨hshape, hbelow⟩ := shape_of_wellFormed hkind h
      cases hshape with
      | shared known plain =>
        have hestree : estreeKind kind = kind := by rw [estreeKind, form_of_shared known]
        by_cases htemplate : kind = "TemplateLiteral"
        · subst htemplate
          have htranslated : (translate (.object fields)).kind? = some "TemplateLiteral" := by
            rw [kind?_translate, hkind, Option.map_some, hestree]
          unfold stringValue
          rw [htranslated, hkind]
          exact templateValue_translate (hbelow (by decide)) hkind plain
        · by_cases hkindLiteral : kind = "Literal"
          · subst hkindLiteral
            rw [hliteral rfl, stringValue_of_literal (.inl hkind),
              (mirrors_shared hkind known).get _ (by decide) (by simp),
              (resembles_translate _).literalValue_eq]
          · have hstring : kind ≠ "StringLiteral" := fun heq => by subst heq; cases known
            have hout : kind ∉ textKinds := by simp [textKinds, htemplate, hkindLiteral, hstring]
            exact hnot hout (by rwa [hestree])
      | renamed known plain =>
        have hall : ∀ entry ∈ renamings, entry.1 ∉ textKinds ∧ estreeKind entry.1 ∉ textKinds := by
          decide
        exact hnot (hall _ known).1 (hall _ known).2
      | stringLiteral value leaf =>
        rw [hliteral rfl, stringValue_of_literal (.inr hkind), translate_object hkind]
        show literalValue ((Document.object (translateFields fields)).get "value") = _
        rw [get_translateFields (by decide), (resembles_translate _).literalValue_eq]
      | numericLiteral value leaf =>
        -- The number has no text by its kind, its translation none because the value is no string.
        rw [hliteral rfl, hother (by decide), translate_object hkind]
        show literalValue ((Document.object (translateFields fields)).get "value") = _
        rw [get_translateFields (by decide), (resembles_translate _).literalValue_eq]
        cases hcase : (Document.object fields).get "value" with
        | string text => simp [hcase, number?] at value
        | _ => rfl
      | booleanLiteral value leaf =>
        rw [hliteral rfl, hother (by decide), translate_object hkind]
        show literalValue ((Document.object (translateFields fields)).get "value") = _
        rw [get_translateFields (by decide), (resembles_translate _).literalValue_eq, value]
        rfl
      | nullLiteral leaf =>
        rw [hliteral rfl, hother (by decide), translate_object hkind]
        rfl
      | regExpLiteral hpattern hflags leaf =>
        rw [hliteral rfl, hother (by decide), translate_object hkind]
        rfl
      | bigIntLiteral value leaf =>
        rw [hliteral rfl, hother (by decide), translate_object hkind]
        rfl
      | classMethod known method plain =>
        have hall : ∀ kind ∈ ["ClassMethod", "ClassPrivateMethod"],
            kind ∉ textKinds ∧ estreeKind kind ∉ textKinds := by decide +kernel
        exact hnot (hall _ known).1 (hall _ known).2
      | _ => exact hnot (by decide) (by decide)
    | _ => cases hkind

end Babel

end CodeMetrics
