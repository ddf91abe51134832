import FieldSelection.Proofs.Synthesis.Connections

/-!
# Arguments that a full selection leaves out

A full selection writes no arguments but page sizes, so a field that needs arguments has no place in
it. A field sets a goal only if it needs none, and what the goals bring is free of such fields
(`Made.not_needsArguments`). The keys around the entries of a connection are written whatever their
signatures say: where a field that needs arguments is selected all the same, it is one of these
(`wrapperKey_of_needsArguments`), and it can be (`exists_needsArguments`).
-/

namespace FieldSelection

namespace Schema

/-- The key is a field of the type that needs arguments. -/
def NeedsArguments (s : Schema) (type : String) (key : Key) : Prop :=
  ∃ d name f, key = .field name ∧ s.descriptor? type = some d ∧ d.field? name = some f ∧
    f.needsArguments = true

/-! ## 1. What is made for a type -/

section Made

variable {s : Schema} {pageSize room : Nat} {ancestors expand : List String} {type field : String}
  {d : TypeDescriptor} {end? : Option String} {t u : Selection} {key : Key} {item : Item}

/-- A field that sets a goal needs no arguments. -/
theorem Sets.not_needsArguments {goal : Goal} (h : s.Sets expand type field goal) :
    ¬ s.NeedsArguments type (.field field) := by
  obtain ⟨d, f, hd, hf, hgoal⟩ := h
  have hnone : f.needsArguments = false := by
    rcases FieldDescriptor.goal?_eq_some_iff.mp hgoal with ⟨hplain, -⟩ | ⟨node, hexpanded, -⟩
    · exact hplain.noArguments
    · exact hexpanded.noArguments
  rintro ⟨d', name, f', hname, hd', hf', hneeds⟩
  cases hname
  obtain rfl := Option.some.inj (hd'.symm.trans hd)
  obtain rfl := Option.some.inj (hf'.symm.trans hf)
  exact Bool.eq_false_iff.mp hnone hneeds

theorem Level.not_needsArguments (h : s.Level pageSize room ancestors expand type d t)
    (hget : t.get? key = some item) : ¬ s.NeedsArguments type key := by
  obtain ⟨field, goal, u, hsets, -, -, rfl, -⟩ := h.get?_eq_some_iff.mp hget
  exact hsets.not_needsArguments

/-- No field that needs arguments is in what is made for its type. -/
theorem Made.not_needsArguments (hs : s.WellFormed) (h : s.Made pageSize end? u)
    (hget : u.get? key = some item) (hend : end? = some type) : ¬ s.NeedsArguments type key := by
  obtain ⟨type', room, ancestors, rfl, h⟩ := h
  cases hend
  obtain ⟨d, -, ⟨rfl, -⟩ | ⟨-, room', -, hlevel⟩⟩ := level_of_ok hs h
  · cases hget
  · exact hlevel.not_needsArguments hget

end Made

/-! ## 2. Fields that need arguments in a full selection -/

/-- **Where fields that need arguments are selected.** Of all the keys of all that is reached in a
    full selection, one that is a field that needs arguments, of the type that it is seen in, is
    one of the keys `nodes`, `edges`, `node` and `pageInfo` that a connection of the root brings,
    or one of the two leaves of its `pageInfo`. -/
theorem wrapperKey_of_needsArguments {s : Schema} (hs : s.WellFormed) {pageSize maxDepth : Nat}
    {expand : List String} {type : String} {t : Selection}
    (h : s.fullSelection pageSize maxDepth expand type = .ok t) :
    ∀ keys end? u, t.Reached s (some type) keys end? u →
      ∀ B key item, end? = some B → u.get? key = some item → s.NeedsArguments B key →
        s.WrapperKey type keys key ∨
          (item = .leaf ∧ (key = .field "hasNextPage" ∨ key = .field "endCursor") ∧
            ∃ c, s.ConnectionKey type c ∧ keys = [c, .field "pageInfo"]) := by
  intro keys end? u hu B key item hend hget hneeds
  rcases made_or_wrapper hs h hu with ⟨rfl, htype, rfl⟩ | hmade |
    ⟨c, rest, route, entries, hc, rfl, hwrapper⟩
  · cases hend.symm.trans htype
    obtain ⟨d, -, hlevel⟩ := level_of_new hs h List.not_mem_nil
    exact absurd hneeds (hlevel.not_needsArguments hget)
  · exact absurd hneeds (hmade.not_needsArguments hs hget hend)
  · rcases key_of_wrapper hc hwrapper hget with hkey | ⟨rfl, hleaf, hkey⟩
    · exact Or.inl hkey
    · exact Or.inr ⟨hleaf, hkey, c, hc, rfl⟩

/-- A shop whose products are listed for a locale. -/
def localized : Schema where
  types := [
    ("Shop", ⟨["name"], [("products", ⟨"ProductConnection!", []⟩)]⟩),
    ("ProductConnection", ⟨[], [("nodes", ⟨"[Product!]!", [("locale", "String!")]⟩)]⟩),
    ("Product", ⟨["title"], []⟩)]
  connectionSuffix := defaultConnectionSuffix

/-- The full selection of the shop with its products. -/
def localizedSelection : Selection :=
  ⟨[], true, [(.field "products", .node (ConnectionRoute.nodes.wrap 25 ⟨[], true, []⟩))]⟩

theorem wellFormed_localized : localized.WellFormed := by
  simp [WellFormed, localized]

/-- In the full selection of the shop the products, which need a locale, are a key of the
    connection. -/
theorem wrapperKey_localized :
    localized.fullSelection 25 2 ["products"] "Shop" = .ok localizedSelection ∧
      localized.NeedsArguments "ProductConnection" (.field "nodes") ∧
      localized.WrapperKey "Shop" [.field "products"] (.field "nodes") := by
  have hfull : localized.fullSelection 25 2 ["products"] "Shop" = .ok localizedSelection := rfl
  have hneeds : localized.NeedsArguments "ProductConnection" (.field "nodes") :=
    ⟨_, _, _, rfl, rfl, rfl, rfl⟩
  refine ⟨hfull, hneeds, ?_⟩
  have hreached : localizedSelection.Reached localized (some "Shop") [.field "products"]
      (some "ProductConnection") (ConnectionRoute.nodes.wrap 25 ⟨[], true, []⟩) :=
    .under List.mem_cons_self .here
  rcases wrapperKey_of_needsArguments wellFormed_localized hfull _ _ _ hreached
      "ProductConnection" (.field "nodes") _ rfl rfl hneeds with hkey | ⟨hleaf, -⟩
  · exact hkey
  · cases hleaf

/-- A full selection can hold a field that needs arguments. -/
theorem exists_needsArguments :
    ∃ (s : Schema) (pageSize maxDepth : Nat) (expand : List String) (type : String)
      (t : Selection), s.WellFormed ∧ s.fullSelection pageSize maxDepth expand type = .ok t ∧
        ∃ keys B u key item, t.Reached s (some type) keys (some B) u ∧ u.get? key = some item ∧
          s.NeedsArguments B key :=
  ⟨localized, 25, 2, ["products"], "Shop", localizedSelection, wellFormed_localized, rfl,
    [.field "products"], "ProductConnection", ConnectionRoute.nodes.wrap 25 ⟨[], true, []⟩,
    .field "nodes", .node ⟨[], true, []⟩, .under List.mem_cons_self .here, rfl,
    _, _, _, rfl, rfl, rfl, rfl⟩

end Schema

end FieldSelection
