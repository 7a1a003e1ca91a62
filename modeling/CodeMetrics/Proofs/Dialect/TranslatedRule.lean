import CodeMetrics.Proofs.Dialect.TranslatedName

/-!
# `CodeMetrics.Proofs.Dialect.TranslatedRule`: what rules read at translated nodes

A translation keeps most of what a rule asks for. So a node that is read field by field and its
translation resemble each other (`Mirrors.resembles`), and both refer to the same modules
(`Mirrors.refersAlike`).
-/

set_option autoImplicit false

namespace CodeMetrics.Babel

open Document

variable {fields : List (String × Document)}

/-! ### Counterparts -/

/-- A place in a tree and one in its translation. The second one holds the translated node, and
what is asked of the parents is the same. -/
structure Counterparts (p q : Placed) : Prop where
  node : q.node = translate p.node
  wellFormed : wellFormed p.node
  isNode : p.node.isNode
  under : ∀ kinds ∈ askedParents, q.parent.kindIn kinds = p.parent.kindIn kinds
  binding : q.bindingName? = p.bindingName?

/-- A node that is read field by field resembles the other one. -/
theorem Mirrors.resembles {p q : Placed} (h : Mirrors [] p.node q.node)
    (lists : ∀ key ∈ listKeys, (p.node.get key).isObject = false)
    (under : ∀ kinds ∈ askedParents, q.parent.kindIn kinds = p.parent.kindIn kinds) :
    p.Resembles askedParents q where
  get {key} hkey := by
    rw [h.get key hkey (by simp)]
    exact resembles_translate _
  scalar {key} hkey hscalar := by rw [h.field? key hkey (by simp), map_translate_of_scalar hscalar]
  inner {key name} hkey hname hplain hscalar :=
    getIn_eq (h.get key hkey (by simp)) hname hplain hscalar
  lists := lists
  under := under

/-! ### Dependencies -/

theorem wellFormed_first {d first : Document} (h : wellFormed d) (hfirst : d.first = .ok first) :
    wellFormed first := by
  unfold Document.first at hfirst
  split at hfirst
  · rename_i items
    cases hfirst
    cases items with
    | nil => rfl
    | cons item rest => exact wellFormed_item h item List.mem_cons_self
  · cases hfirst
    split <;> rfl
  · cases hfirst
  · cases hfirst

theorem lines?_eq {a b : Document} (h : b.get "loc" = a.get "loc") : b.lines? = a.lines? := by
  unfold lines?
  rw [h]

/-- A node that is read field by field refers to the same modules. -/
theorem Mirrors.refersAlike {s : Settings} {a b : Document} (h : Mirrors [] a b)
    (hobject : b.isObject = a.isObject) (hlist : (a.get "arguments").isObject = false)
    (hwell : ∀ {key}, key ∉ nonChildKeys → wellFormed (a.get key)) : RefersAlike s a b where
  lines := lines?_eq h.loc
  isObject := hobject
  loader := by
    rw [h.get "callee" (by decide) (by simp), kindIn_translate (by decide) (by decide)]
    cases hkind : (a.get "callee").kindIn ["Identifier"] with
    | false => rfl
    | true =>
      -- The name of the callee is asked for only if it is an identifier, and then it is a field.
      rw [get_translate (isPlain_of_shared (kind?_of_kindIn hkind) (by decide)) (by decide),
        isOneOf_translate]
  keyword := by
    rw [h.get "callee" (by decide) (by simp), kindIn_translate (by decide) (by decide)]
  arguments := h.get "arguments" (by decide) (by simp) ▸ resembles_translate _
  list := hlist
  first := by
    rw [h.get "arguments" (by decide) (by simp), first_translate hlist]
    cases hfirst : (a.get "arguments").first with
    | error fault => exact .error fault
    | ok first => exact .ok (stringValue_translate (wellFormed_first (hwell (by decide)) hfirst))
  source := h.get "source" (by decide) (by simp) ▸ resembles_translate _
  path := by rw [h.get "source" (by decide) (by simp), stringValue_translate (hwell (by decide))]

end CodeMetrics.Babel
