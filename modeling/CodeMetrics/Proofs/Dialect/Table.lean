import CodeMetrics.Dialect.Registry

/-!
# `CodeMetrics.Proofs.Dialect.Table`: the rules of an extended dialect

A dialect is a list of rules, and the first one for a kind counts. Extending a dialect puts rules
into the list. The rule of an extension for a kind is then the last of the new ones for the kind,
or the one that was there (`rule?_extend`).

Babel extends the ESTree by rules for kinds that the ESTree does not have, so its rules are those of
the ESTree followed by its own (`Babel.dialect_eq`). What holds of both lists holds of all rules of
the standard dialects (`Registry.forall_rules`).
-/

set_option autoImplicit false

namespace CodeMetrics

namespace Dialect

/-- A rule that is put is found, and all others as before. -/
theorem find_put (kind name : String) (rule : Rule) (rules : List (String × Rule)) :
    find kind (put name rule rules) = if name = kind then some rule else find kind rules := by
  induction rules with
  | nil => rfl
  | cons entry rest ih =>
    obtain ⟨first, old⟩ := entry
    rw [put]
    split
    · rename_i hfirst
      subst hfirst
      rw [find, find]
      split <;> rfl
    · rename_i hfirst
      rw [find, ih, find]
      by_cases hname : name = kind
      · subst hname
        rw [if_neg hfirst, if_pos rfl, if_pos rfl]
      · rw [if_neg hname, if_neg hname]

/-- A rule that is found is among the rules. -/
theorem mem_of_find {kind : String} {rule : Rule} {rules : List (String × Rule)}
    (h : find kind rules = some rule) : (kind, rule) ∈ rules := by
  induction rules with
  | nil => cases h
  | cons entry rest ih =>
    obtain ⟨name, first⟩ := entry
    rw [find] at h
    split at h
    · rename_i hname
      subst hname
      cases h
      exact List.mem_cons_self
    · exact List.mem_cons_of_mem _ (ih h)

/-- A kind with a rule among the rules has one that is found. -/
theorem isSome_find_of_mem {entry : String × Rule} {rules : List (String × Rule)}
    (h : entry ∈ rules) : (find entry.1 rules).isSome := by
  induction rules with
  | nil => cases h
  | cons first rest ih =>
    obtain ⟨name, rule⟩ := first
    rw [find]
    split
    · rfl
    · rename_i hname
      rcases List.mem_cons.mp h with rfl | hrest
      · exact absurd rfl hname
      · exact ih hrest

/-- An extension has the last rule that it is given for a kind, or else the one that was there. -/
theorem rule?_extend (d : Dialect) (name : String) (overrides : List (String × Rule))
    (body : Option BodyPlace) (kind : String) :
    (d.extend name overrides body).rule? kind =
      (find kind overrides.reverse).or (d.rule? kind) := by
  show find kind (overrides.foldl (fun rules entry => put entry.1 entry.2 rules) d.rules) = _
  rw [← List.foldr_reverse]
  -- From the last rule on, the first one for the kind is the one that was put last.
  induction overrides.reverse with
  | nil => rfl
  | cons entry rest ih =>
    rw [List.foldr_cons, find_put, ih, find]
    split <;> rfl

/-- An extension changes nothing for the kinds that it does not name. -/
theorem rule?_extend_of_not {d : Dialect} {name : String} {overrides : List (String × Rule)}
    {body : Option BodyPlace} {kind : String} (h : ∀ entry ∈ overrides, entry.1 ≠ kind) :
    (d.extend name overrides body).rule? kind = d.rule? kind := by
  rw [rule?_extend]
  cases hfound : find kind overrides.reverse with
  | none => rfl
  | some rule => exact absurd rfl (h _ (List.mem_reverse.mp (mem_of_find hfound)))

/-- The rule of an extension for a kind is the one that was there, or one that it was given. -/
theorem rule?_extend_cases (d : Dialect) (name : String) (overrides : List (String × Rule))
    (body : Option BodyPlace) (kind : String) :
    (d.extend name overrides body).rule? kind = d.rule? kind ∨
      ∃ rule, (d.extend name overrides body).rule? kind = some rule ∧ (kind, rule) ∈ overrides := by
  rw [rule?_extend]
  cases hfound : find kind overrides.reverse with
  | none => exact Or.inl rfl
  | some rule => exact Or.inr ⟨rule, rfl, List.mem_reverse.mp (mem_of_find hfound)⟩

/-- A rule that is put replaces one or joins the others. -/
theorem mem_put {kind : String} {rule : Rule} {rules : List (String × Rule)}
    {entry : String × Rule} (h : entry ∈ put kind rule rules) :
    entry = (kind, rule) ∨ entry ∈ rules := by
  induction rules with
  | nil => exact Or.inl (List.mem_singleton.mp h)
  | cons first rest ih =>
    obtain ⟨name, old⟩ := first
    rw [put] at h
    split at h
    · rcases List.mem_cons.mp h with rfl | hrest
      · exact Or.inl rfl
      · exact Or.inr (List.mem_cons_of_mem _ hrest)
    · rcases List.mem_cons.mp h with rfl | hrest
      · exact Or.inr List.mem_cons_self
      · exact (ih hrest).imp_right (List.mem_cons_of_mem _)

/-- The rules of an extension are old ones and those that it was given. -/
theorem mem_rules_extend {d : Dialect} {name : String} {overrides : List (String × Rule)}
    {body : Option BodyPlace} {entry : String × Rule}
    (h : entry ∈ (d.extend name overrides body).rules) :
    entry ∈ d.rules ∨ entry ∈ overrides := by
  change entry ∈ overrides.foldl (fun rules entry => put entry.1 entry.2 rules) d.rules at h
  generalize d.rules = rules at h ⊢
  induction overrides generalizing rules with
  | nil => exact Or.inl h
  | cons first rest ih =>
    rcases ih _ h with hput | hrest
    · rcases mem_put hput with rfl | hold
      · exact Or.inr List.mem_cons_self
      · exact Or.inl hold
    · exact Or.inr (List.mem_cons_of_mem _ hrest)

/-- A rule for a kind that has none comes last. -/
theorem put_of_new {kind : String} {rule : Rule} {rules : List (String × Rule)}
    (h : ∀ entry ∈ rules, entry.1 ≠ kind) : put kind rule rules = rules ++ [(kind, rule)] := by
  induction rules with
  | nil => rfl
  | cons first rest ih =>
    rw [List.forall_mem_cons] at h
    rw [put, if_neg h.1, ih h.2, List.cons_append]

/-- Rules for kinds that have none, and that differ from each other, come last in their order. -/
theorem rules_extend_of_new {d : Dialect} {name : String} {overrides : List (String × Rule)}
    {body : Option BodyPlace} (hnew : ∀ entry ∈ d.rules, ∀ own ∈ overrides, entry.1 ≠ own.1)
    (hapart : overrides.Pairwise fun own other => own.1 ≠ other.1) :
    (d.extend name overrides body).rules = d.rules ++ overrides := by
  change overrides.foldl (fun rules entry => put entry.1 entry.2 rules) d.rules = _
  generalize d.rules = rules at hnew ⊢
  induction overrides generalizing rules with
  | nil => exact (List.append_nil rules).symm
  | cons first rest ih =>
    obtain ⟨hfirst, hrest⟩ := List.pairwise_cons.mp hapart
    -- The rules that are left have to be new to the one that was put, too.
    have hnext : ∀ entry ∈ rules ++ [first], ∀ own ∈ rest, entry.1 ≠ own.1 := by
      rw [List.forall_mem_append, List.forall_mem_singleton]
      exact ⟨fun entry hentry own hown => hnew entry hentry own (List.mem_cons_of_mem _ hown), hfirst⟩
    rw [List.foldl_cons, put_of_new fun entry hentry => hnew entry hentry first List.mem_cons_self,
      ih hrest _ hnext, List.append_assoc, List.singleton_append]

end Dialect

/-! ### The standard dialects -/

namespace Babel

/-- Babel has rules of its own only for kinds that the ESTree does not have. -/
theorem overrides_new : ∀ entry ∈ Estree.rules, ∀ own ∈ overrides, entry.1 ≠ own.1 := by
  decide +kernel

/-- The rules of Babel are those of the ESTree and then its own. Evaluation is faster in this form,
where no rule has to be put. -/
theorem dialect_eq :
    dialect = { name := "babel", rules := Estree.rules ++ overrides, body := .fileOrProgram } := by
  have hrules : dialect.rules = Estree.rules ++ overrides :=
    Dialect.rules_extend_of_new overrides_new (by decide +kernel)
  rw [← hrules]
  rfl

/-- The ESTree does not define the kinds that Babel adds. -/
theorem defines_overrides :
    ∀ entry ∈ overrides, dialect.defines entry.1 = true ∧ Estree.dialect.defines entry.1 = false := by
  intro entry hentry
  constructor
  · rw [dialect_eq]
    exact Dialect.isSome_find_of_mem (List.mem_append_right _ hentry)
  · rw [Dialect.defines, Option.isSome_eq_false_iff, Option.isNone_iff_eq_none]
    refine Option.eq_none_iff_forall_ne_some.mpr fun rule hrule => ?_
    exact overrides_new _ (Dialect.mem_of_find hrule) entry hentry rfl

end Babel

/-- What holds of the rules of the ESTree and of those that Babel adds holds of all rules of the
standard dialects. -/
theorem Registry.forall_rules {P : String × Rule → Prop} (hestree : ∀ row ∈ Estree.rules, P row)
    (hbabel : ∀ row ∈ Babel.overrides, P row) :
    ∀ entry ∈ standard.entries, ∀ row ∈ entry.2.rules, P row := by
  intro entry hentry row hrow
  simp only [standard, List.mem_cons, List.not_mem_nil, or_false] at hentry
  rcases hentry with rfl | rfl
  · exact hestree row hrow
  · exact (Dialect.mem_rules_extend hrow).elim (hestree row) (hbabel row)

end CodeMetrics
