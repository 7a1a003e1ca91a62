import CodeMetrics.Proofs.Decimal.Text
import CodeMetrics.Proofs.Node.Name
import CodeMetrics.Proofs.Report.Assembly
import CodeMetrics.Proofs.Rule.Parent
import CodeMetrics.Proofs.Traversal.Concatenation

/-!
# `CodeMetrics.Proofs.Node.StaticName`: which nodes have a static name

`Document.Nameable` is the grammar of the nodes that have a static name, and `isSome_name?_iff` says
that those are the nodes `Document.name?` finds one for. In a chain of members, owner and member
have to be in the grammar, at any depth.

A name can be asked for with a value to fall back on. `Document.nameWith` hands this value down
instead of putting it in at the end, so that it might end up inside a name. It never does
(`nameWith_eq`).

No name is the empty text (`truthy_of_name?`). Functions take their names from nodes or from a
counter, so every function of a report has a name that is not empty.
-/

set_option autoImplicit false

namespace CodeMetrics

namespace Document

/-! ### The grammar of names -/

/-- The kinds of nodes that read a member. -/
def memberKinds : List String := ["MemberExpression", "OptionalMemberExpression"]

/-- Whether a value is a number. Truth values are none. -/
def isNumber : Document → Bool
  | .int _ | .float _ => true
  | _ => false

/-- The nodes that have a static name. -/
inductive Nameable : Document → Prop
  | identifier {d : Document} (kind : d.kind? = some "Identifier")
    (name : (d.get "name").truthy = true) : Nameable d
  | privateIdentifier {d : Document} (kind : d.kind? = some "PrivateIdentifier") : Nameable d
  | privateName {d : Document} (kind : d.kind? = some "PrivateName") : Nameable d
  | this {d : Document} (kind : d.kind? = some "ThisExpression") : Nameable d
  | text {d : Document} {s : String} (kind : d.kindIn literalKinds = true)
    (value : d.get "value" = .string s) (nonempty : s ≠ "") : Nameable d
  | number {d : Document} (kind : d.kindIn literalKinds = true)
    (value : (d.get "value").isNumber = true) : Nameable d
  | member {d : Document} (kind : d.kindIn memberKinds = true)
    (plain : (d.get "computed").truthy = false)
    (owner : (d.get "object").kindIn literalKinds = false)
    (object : Nameable (d.get "object")) (property : Nameable (d.get "property")) : Nameable d

/-! ### Texts that are not empty -/

theorem truthy_string {s : String} (h : s ≠ "") : (string s).truthy = true := by
  simpa [truthy, String.isEmpty_iff] using h

theorem append_ne_empty {s t : String} (h : s ≠ "") : s ++ t ≠ "" := by
  intro hempty
  exact h (String.append_eq_empty_iff.mp hempty).1

theorem signed_ne_nil {negative : Bool} {text : List Char} (h : Decimal.StartsWithDigit text) :
    Decimal.signed negative text ≠ [] := by
  obtain ⟨c, rest, rfl, -⟩ := h
  cases negative <;> exact List.cons_ne_nil _ _

theorem intText_ne_empty (n : Int) : Decimal.intText n ≠ "" := by
  intro hempty
  have htext := Decimal.toList_intText n
  rw [hempty] at htext
  exact signed_ne_nil (Decimal.startsWithDigit_toDigits _) htext.symm

theorem floatText_ne_empty (style : Decimal.FloatStyle) (x : Float) :
    Decimal.floatText style x ≠ "" := by
  intro hempty
  have htext := Decimal.toList_floatText style x
  rw [hempty] at htext
  exact signed_ne_nil (Decimal.startsWithDigit_written _ _) htext.symm

/-- A number is spelled with at least one character. -/
theorem literalText_ne_empty {value : Document} (h : value.isNumber = true) :
    value.literalText ≠ "" := by
  cases value with
  | int n => exact intText_ne_empty n
  | float x =>
    unfold literalText
    dsimp only
    split
    · exact intText_ne_empty _
    · exact floatText_ne_empty _ x
  | _ => cases h

/-! ### Names and the grammar -/

theorem nameFrom_of_literal {d : Document} (h : d.kindIn literalKinds = true)
    (name : Document → Option Document) : nameFrom name d = literalName? (d.get "value") := by
  obtain ⟨kind, hmem, hkind⟩ := kindIn_iff.mp h
  unfold nameFrom
  rw [hkind]
  simp only [literalKinds, List.mem_cons, List.not_mem_nil, or_false] at hmem
  rcases hmem with rfl | rfl | rfl <;> rfl

theorem nameFrom_of_member {d : Document} (h : d.kindIn memberKinds = true)
    (name : Document → Option Document) :
    nameFrom name d =
      if (d.get "computed").truthy || (d.get "object").kindIn literalKinds then none
      else memberName (name (d.get "object")) (name (d.get "property")) := by
  obtain ⟨kind, hmem, hkind⟩ := kindIn_iff.mp h
  unfold nameFrom
  rw [hkind]
  simp only [memberKinds, List.mem_cons, List.not_mem_nil, or_false] at hmem
  rcases hmem with rfl | rfl <;> rfl

/-- What a literal is that has a name. -/
theorem nameable_of_literalName? {d n : Document} (kind : d.kindIn literalKinds = true)
    (h : literalName? (d.get "value") = some n) : d.Nameable ∧ n.truthy = true := by
  unfold literalName? at h
  split at h
  · rename_i s hvalue
    split at h
    · cases h
    · rename_i hempty
      cases h
      have hne : s ≠ "" := by simpa [String.isEmpty_iff] using hempty
      exact ⟨.text kind hvalue hne, truthy_string hne⟩
  · rename_i i hvalue
    cases h
    have hnumber : (d.get "value").isNumber = true := by rw [hvalue]; rfl
    exact ⟨.number kind hnumber, truthy_string (literalText_ne_empty hnumber)⟩
  · rename_i x hvalue
    cases h
    have hnumber : (d.get "value").isNumber = true := by rw [hvalue]; rfl
    exact ⟨.number kind hnumber, truthy_string (literalText_ne_empty hnumber)⟩
  · cases h

theorem exists_of_memberName {owner key : Option Document} {n : Document}
    (h : memberName owner key = some n) :
    ∃ o k, owner = some o ∧ key = some k ∧ n = .string (o.display ++ "." ++ k.display) := by
  unfold memberName at h
  split at h
  · cases h
    exact ⟨_, _, rfl, rfl, rfl⟩
  · cases h

/-- What a member is that has a name. -/
theorem nameable_of_memberName {d n : Document} (kind : d.kindIn memberKinds = true)
    (h : (if (d.get "computed").truthy || (d.get "object").kindIn literalKinds then none
      else memberName (d.get "object").name? (d.get "property").name?) = some n)
    (parts : ∀ key name, (d.get key).name? = some name → (d.get key).Nameable) :
    d.Nameable ∧ n.truthy = true := by
  split at h
  · cases h
  · rename_i hplain
    rw [Bool.not_eq_true, Bool.or_eq_false_iff] at hplain
    obtain ⟨owner, member, howner, hmember, rfl⟩ := exists_of_memberName h
    have hpoint : owner.display ++ "." ≠ "" := by
      intro hempty
      exact absurd (String.append_eq_empty_iff.mp hempty).2 (by decide)
    exact ⟨.member kind hplain.1 hplain.2 (parts _ _ howner) (parts _ _ hmember),
      truthy_string (append_ne_empty hpoint)⟩

/-- A node that has a name is in the grammar, and the name is not empty. -/
theorem nameable_of_name? {d n : Document} (h : d.name? = some n) :
    d.Nameable ∧ n.truthy = true := by
  induction hsize : d.size using Nat.strongRecOn generalizing d n with
  | ind size ih =>
    have parts : ∀ {kind : String}, d.kind? = some kind →
        ∀ key name, (d.get key).name? = some name → (d.get key).Nameable :=
      fun hkind key name hname => (ih _ (hsize ▸ size_get_lt_of_kind hkind key) hname rfl).1
    rw [name?_eq, nameFrom] at h
    split at h <;> rename_i hkind
    · unfold ifTruthy at h
      split at h
      · rename_i htruthy
        cases h
        exact ⟨.identifier hkind htruthy, htruthy⟩
      · cases h
    · cases h
      exact ⟨.privateIdentifier hkind, truthy_string (append_ne_empty (by decide))⟩
    · cases h
      exact ⟨.privateName hkind, truthy_string (append_ne_empty (by decide))⟩
    · cases h
      exact ⟨.this hkind, by decide⟩
    -- Three kinds of literals and two kinds of members.
    · exact nameable_of_literalName? (kindIn_iff.mpr ⟨_, by decide, hkind⟩) h
    · exact nameable_of_literalName? (kindIn_iff.mpr ⟨_, by decide, hkind⟩) h
    · exact nameable_of_literalName? (kindIn_iff.mpr ⟨_, by decide, hkind⟩) h
    · exact nameable_of_memberName (kindIn_iff.mpr ⟨_, by decide, hkind⟩) h (parts hkind)
    · exact nameable_of_memberName (kindIn_iff.mpr ⟨_, by decide, hkind⟩) h (parts hkind)
    · cases h

/-- The name of a member is that of its owner and its own, with a point between them. -/
theorem name?_of_member {d owner member : Document} (kind : d.kindIn memberKinds = true)
    (plain : (d.get "computed").truthy = false)
    (literal : (d.get "object").kindIn literalKinds = false)
    (hobject : (d.get "object").name? = some owner)
    (hproperty : (d.get "property").name? = some member) :
    d.name? = some (.string (owner.display ++ "." ++ member.display)) := by
  rw [name?_eq, nameFrom_of_member kind, plain, literal, hobject, hproperty]
  rfl

/-- A node in the grammar has a name. -/
theorem Nameable.exists_name {d : Document} (h : d.Nameable) : ∃ n, d.name? = some n := by
  induction h with
  | identifier kind name =>
    rw [name?_eq, nameFrom, kind]
    exact ⟨_, if_pos name⟩
  | privateIdentifier kind =>
    rw [name?_eq, nameFrom, kind]
    exact ⟨_, rfl⟩
  | privateName kind =>
    rw [name?_eq, nameFrom, kind]
    exact ⟨_, rfl⟩
  | this kind =>
    rw [name?_eq, nameFrom, kind]
    exact ⟨_, rfl⟩
  | text kind value nonempty =>
    rw [name?_eq, nameFrom_of_literal kind, value, literalName?, if_neg]
    · exact ⟨_, rfl⟩
    · simpa [String.isEmpty_iff] using nonempty
  | @number d kind value =>
    rw [name?_eq, nameFrom_of_literal kind]
    cases hvalue : d.get "value" with
    | int n => exact ⟨_, rfl⟩
    | float x => exact ⟨_, rfl⟩
    | _ =>
      rw [hvalue] at value
      cases value
  | member kind plain owner _ _ hobject hproperty =>
    obtain ⟨object, hobject⟩ := hobject
    obtain ⟨property, hproperty⟩ := hproperty
    exact ⟨_, name?_of_member kind plain owner hobject hproperty⟩

/-- The name of a chain of members is that of the owner and that of the member. -/
theorem Nameable.exists_parts {d : Document} (h : d.Nameable) (kind : d.kindIn memberKinds = true) :
    ∃ owner member, (d.get "object").name? = some owner ∧ (d.get "property").name? = some member ∧
      d.name? = some (.string (owner.display ++ "." ++ member.display)) := by
  obtain ⟨n, hn⟩ := h.exists_name
  have hparts := hn
  rw [name?_eq, nameFrom_of_member kind] at hparts
  split at hparts
  · cases hparts
  · obtain ⟨owner, member, howner, hmember, rfl⟩ := exists_of_memberName hparts
    exact ⟨owner, member, howner, hmember, hn⟩

theorem isSome_name?_iff {d : Document} : d.name?.isSome = true ↔ d.Nameable := by
  constructor
  · intro h
    obtain ⟨n, hn⟩ := Option.isSome_iff_exists.mp h
    exact (nameable_of_name? hn).1
  · intro h
    exact Option.isSome_iff_exists.mpr h.exists_name

/-! ### A value to fall back on -/

/-- The static name of a node, or `default`. Where the name is put together from others, they are
asked for with the empty text or with nothing to fall back on. -/
def nameWith (default : Option Document) (d : Document) : Option Document :=
  match _h : d.kind? with
  | some "Identifier" => (d.get "name").ifTruthy.or default
  | some "PrivateIdentifier" => some (.string ("#" ++ (d.get "name").display))
  | some "PrivateName" =>
    some (.string ("#" ++ ((nameWith (some (.string "")) (d.get "id")).getD .null).display))
  | some "ThisExpression" => some (.string "this")
  | some "Literal" | some "StringLiteral" | some "NumericLiteral" =>
    (literalName? (d.get "value")).or default
  | some "MemberExpression" | some "OptionalMemberExpression" =>
    if (d.get "computed").truthy || (d.get "object").kindIn literalKinds then default
    else
      (memberName (nameWith none (d.get "object")) (nameWith none (d.get "property"))).or default
  | _ => default
termination_by d.size
decreasing_by all_goals exact size_get_lt_of_kind (by assumption) _

/-- What a name falls back on stands for the whole name or for nothing. -/
theorem nameWith_eq (default : Option Document) (d : Document) :
    d.nameWith default = d.name?.or default := by
  fun_induction nameWith default d with
  | case1 default d hkind =>
    rw [name?_eq, nameFrom, hkind]
    rfl
  | case2 default d hkind =>
    rw [name?_eq, nameFrom, hkind]
    rfl
  | case3 default d hkind ih =>
    rw [name?_eq, nameFrom, hkind, ih]
    cases (d.get "id").name? <;> rfl
  | case4 default d hkind =>
    rw [name?_eq, nameFrom, hkind]
    rfl
  | case5 default d hkind | case6 default d hkind | case7 default d hkind =>
    rw [name?_eq, nameFrom_of_literal (kindIn_iff.mpr ⟨_, by decide, hkind⟩)]
  --  case8|A computed property or a literal as owner leaves a member without a name, so the default
  -- is all there is.
  | case8 default d hkind hbarred | case10 default d hkind hbarred =>
    rw [name?_eq, nameFrom_of_member (kindIn_iff.mpr ⟨_, by decide, hkind⟩), if_pos hbarred,
      Option.none_or]
  | case9 default d hkind hbarred ihobject ihproperty
  | case11 default d hkind hbarred ihobject ihproperty =>
    rw [name?_eq, nameFrom_of_member (kindIn_iff.mpr ⟨_, by decide, hkind⟩), if_neg hbarred]
    rw [ihobject, ihproperty, Option.or_none, Option.or_none]
  | case12 default d hother =>
    rw [name?_eq, nameFrom]
    split <;> simp_all

end Document

/-! ### The names of functions in a report -/

/-- A binding gives the name of a node. -/
theorem Placed.exists_of_bindingName? {p : Placed} {n : Document} (h : p.bindingName? = some n) :
    ∃ d : Document, d.name? = some n := by
  unfold bindingName? at h
  split at h
  · cases h
  · dsimp only at h
    split_ifs at h
    · exact ⟨_, h⟩
    · split at h
      · exact ⟨_, h⟩
      · exact ⟨_, h⟩
      · cases h
    · exact ⟨_, h⟩
    · exact ⟨_, h⟩

/-- So does everything else that a scope can be named after. -/
theorem Naming.exists_of_name? {naming : Naming} {p : Placed} {n : Document}
    (h : naming.name? p = some n) : ∃ d : Document, d.name? = some n := by
  cases naming with
  | binding => exact Placed.exists_of_bindingName? h
  | ownThenBinding =>
    simp only [name?, Placed.functionName?] at h
    split at h
    · rename_i own hown
      cases h
      exact ⟨_, hown⟩
    · exact Placed.exists_of_bindingName? h
  | key =>
    simp only [name?, Placed.methodName?] at h
    split at h
    · cases h
    · exact ⟨_, h⟩

theorem Occurrence.truthy_staticName {d : Dialect} {o : Occurrence} {n : Document}
    (h : o.staticName d = some n) : n.truthy = true := by
  obtain ⟨naming, -, h⟩ := Option.bind_eq_some_iff.mp h
  obtain ⟨node, hnode⟩ := Naming.exists_of_name? h
  exact (Document.nameable_of_name? hnode).2

/-- A name in a row is one that was there before, or the name of an anonymous function. -/
theorem ScopeTree.mem_namesFrom {taken : Nat} {names : List (Option Document)} {n : Document}
    (h : n ∈ namesFrom taken names) :
    some n ∈ names ∨ ∃ number, n = .string (anonymousName number) := by
  induction names generalizing taken with
  | nil => cases h
  | cons first rest ih =>
    cases first with
    | some name =>
      rcases List.mem_cons.mp h with rfl | h
      · exact .inl List.mem_cons_self
      · exact (ih h).imp_left (List.mem_cons_of_mem _)
    | none =>
      rcases List.mem_cons.mp h with rfl | h
      · exact .inr ⟨_, rfl⟩
      · exact (ih h).imp_left (List.mem_cons_of_mem _)

theorem Document.truthy_anonymousName (number : Nat) :
    (string (ScopeTree.anonymousName number)).truthy = true := by
  refine truthy_string ?_
  unfold ScopeTree.anonymousName
  exact append_ne_empty (append_ne_empty (by decide))

namespace Dialect

variable {d : Dialect} {s : Settings} {root : Document} {w : Walk}

/-- Every function that a traversal finds has a name that is not empty. -/
theorem exists_name_of_walk (done : d.walk s root = .ok w) {f : Scope Int String}
    (hf : f ∈ w.tree.functions) : ∃ n, f.name = some n ∧ n.truthy = true := by
  have hname : f.name ∈ w.tree.functions.map Scope.name := List.mem_map_of_mem hf
  rw [(names_of_walk done).1] at hname
  obtain ⟨n, hn, hname⟩ := List.mem_map.mp hname
  refine ⟨n, hname.symm, ?_⟩
  rcases ScopeTree.mem_namesFrom hn with hstatic | ⟨number, rfl⟩
  · obtain ⟨o, -, ho⟩ := List.mem_map.mp hstatic
    exact Occurrence.truthy_staticName ho
  · exact Document.truthy_anonymousName number

/-- So has every function of a report, and a class lists no others. -/
theorem exists_name_of_measure {report : Report} (done : d.measure s root = .ok report)
    {m : MethodReport} (hm : m ∈ report.methods ++ report.classes.flatMap (·.methods)) :
    ∃ n, m.name = some n ∧ n.truthy = true := by
  obtain ⟨w, hwalk, done⟩ := exists_of_bind_eq_ok done
  have hbuild := eq_ok_of_mapError done
  -- Each function of a class is one of the module, so its name is known from there.
  have hlisted : m ∈ report.methods := by
    rcases List.mem_append.mp hm with hm | hm
    · exact hm
    · obtain ⟨c, hc, hm⟩ := List.mem_flatMap.mp hm
      exact (Report.presents_of_build hbuild).listed c hc m hm
  obtain ⟨exact, hfrom⟩ := assembled_of_build hwalk hbuild
  have hname : m.name ∈ report.methods.map MethodReport.name := List.mem_map_of_mem hlisted
  rw [hfrom.map_name] at hname
  obtain ⟨_, hmapped, hname⟩ := List.mem_map.mp hname
  obtain ⟨f, hf, rfl⟩ := List.mem_map.mp hmapped
  rw [← hname]
  exact exists_name_of_walk hwalk hf

end Dialect

/-- The nodes with a static name are those of the grammar. The name of a chain is put together from
those of its two parts, and a value to fall back on is taken for a whole name only. No name is the
empty text, so every function in a report has a name, and one that is not empty. -/
theorem static_names :
    (∀ d : Document, d.name?.isSome = true ↔ d.Nameable) ∧
    (∀ d : Document, d.Nameable → d.kindIn Document.memberKinds = true →
      ∃ owner member, (d.get "object").name? = some owner ∧ (d.get "property").name? = some member ∧
        d.name? = some (.string (owner.display ++ "." ++ member.display))) ∧
    (∀ (d : Document) (default : Option Document), d.nameWith default = d.name?.or default) ∧
    (∀ d default : Document, d.nameWith (some default) = some (Document.nameOr default d)) ∧
    (∀ d : Document, d.name? ≠ some (.string "")) ∧
    ∀ (d : Dialect) (s : Settings) (root : Document) (report : Report),
      d.measure s root = .ok report →
        ∀ m ∈ report.methods ++ report.classes.flatMap (·.methods),
          ∃ n, m.name = some n ∧ n ≠ .string "" ∧ n ≠ .null := by
  refine ⟨fun d => Document.isSome_name?_iff, fun d h kind => h.exists_parts kind,
    fun d default => Document.nameWith_eq default d, ?_, ?_, ?_⟩
  · intro d default
    rw [Document.nameWith_eq, Document.nameOr]
    cases d.name? <;> rfl
  · intro d hempty
    cases (Document.nameable_of_name? hempty).2
  · intro d s root report done m hm
    obtain ⟨n, hname, htruthy⟩ := Dialect.exists_name_of_measure done hm
    refine ⟨n, hname, ?_, ?_⟩
    · rintro rfl
      cases htruthy
    · rintro rfl
      cases htruthy

/-- A chain of three members, of which the second one is a private name. -/
def Sample.memberChain : Document :=
  node "MemberExpression"
    [("object", node "OptionalMemberExpression"
      [("object", node "ThisExpression" []),
       ("property", node "PrivateName" [("id", name "x")])]),
     ("property", name "run"), ("computed", .bool false)]

/-- The chain of three members has a name, and all functions of a module with nested scopes have
one. -/
theorem static_names_memberChain :
    Sample.memberChain.name?.bind Document.text? = some "this.#x.run" ∧
    Sample.memberChain.Nameable ∧
    (∃ owner member, (Sample.memberChain.get "object").name? = some owner ∧
      (Sample.memberChain.get "property").name? = some member ∧
      Sample.memberChain.name? = some (.string (owner.display ++ "." ++ member.display))) ∧
    ∃ report, Estree.dialect.measure {} Sample.nested = .ok report ∧
      ∀ m ∈ report.methods ++ report.classes.flatMap (·.methods),
        ∃ n, m.name = some n ∧ n ≠ .string "" ∧ n ≠ .null := by
  have hnameable : Sample.memberChain.Nameable :=
    (static_names.1 Sample.memberChain).mp (by decide +kernel)
  obtain ⟨report, done⟩ := Sample.analyze_nested
  obtain ⟨-, -, done⟩ := exists_of_bind_eq_ok done
  exact ⟨by decide +kernel, hnameable,
    static_names.2.1 Sample.memberChain hnameable (by decide +kernel), report, done,
    static_names.2.2.2.2.2 Estree.dialect {} Sample.nested report done⟩

end CodeMetrics
