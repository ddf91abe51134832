import FieldSelection.Proofs.Synthesis.Chains
import FieldSelection.Proofs.Synthesis.Origins
import FieldSelection.Proofs.Synthesis.Walk

/-!
# The connections of a full selection

A full selection pages connections of its own type and nothing else
(`connections_of_fullSelection`):

* a connection is there exactly if `expand` names it, it is neither a scalar nor in need of
  arguments, and from its entries a trail leads to scalars without coming back to the type;
* its value is paged: `first`, the entries under `nodes` or `edges { node }`, and `pageInfo`;
* whatever else is reached has no arguments, and no connection among its keys (`Unpaged`), but for
  what is written around the entries: `nodes`, `edges`, `node`, `pageInfo` and its two leaves, which
  a schema may describe as connections too (`exists_connectionKey_leaf`).
-/

namespace FieldSelection

/-! ## 1. The value of a connection -/

/-- The entries of a connection under the keys of their route. -/
def ConnectionRoute.entry (entries : Selection) : ConnectionRoute → Key × Item
  | .nodes => (.field "nodes", .node entries)
  | .edges => (.field "edges", .node ⟨[], false, [(.field "node", .node entries)]⟩)

theorem ConnectionRoute.wrap_eq (pageSize : Nat) (entries : Selection) (route : ConnectionRoute) :
    route.wrap pageSize entries =
      ⟨[("first", .ofNat pageSize)], false, [route.entry entries, (.field "pageInfo",
        .node ⟨[], false, [(.field "hasNextPage", .leaf), (.field "endCursor", .leaf)]⟩)]⟩ := by
  cases route <;> rfl

/-- What a paged connection holds around its entries, along keys. -/
inductive ConnectionRoute.Wrapper (pageSize : Nat) (entries : Selection) :
    ConnectionRoute → List Key → Selection → Prop where
  | connection (route : ConnectionRoute) :
      Wrapper pageSize entries route [] (route.wrap pageSize entries)
  | edges : Wrapper pageSize entries .edges [.field "edges"]
      ⟨[], false, [(.field "node", .node entries)]⟩
  | pageInfo (route : ConnectionRoute) :
      Wrapper pageSize entries route [.field "pageInfo"] .pageInfo

namespace Schema

section Root

variable {s : Schema} {pageSize room maxDepth : Nat} {ancestors expand : List String}
  {type : String} {d : TypeDescriptor} {f : FieldDescriptor} {t : Selection}

/-- A connection of a level holds what its entries come to, paged. -/
theorem Level.get?_connection_iff (h : s.Level pageSize room ancestors expand type d t)
    (hd : s.descriptor? type = some d) (hf : d.field? f.name = some f)
    (hconnection : f.isConnection = true) {item : Item} :
    t.get? (.field f.name) = some item ↔ ∃ node u, f.Expanded expand node ∧
      s.fullSelectionWithin pageSize room (type :: ancestors) [] node.type = .ok u ∧
      u.isEmpty = false ∧ item = .node (node.route.wrap pageSize u) := by
  constructor
  · intro hget
    obtain ⟨field, goal, u, hsets, hu, hne, hname, rfl⟩ := h.get?_eq_some_iff.mp hget
    obtain rfl := Key.field.inj hname
    rcases hsets.step with ⟨next, rfl, d', f', hd', hf', hplain, -⟩ |
      ⟨node, rfl, d', f', hd', hf', hexpanded⟩
    · obtain rfl := Option.some.inj (hd'.symm.trans hd)
      obtain rfl := Option.some.inj (hf'.symm.trans hf)
      exact absurd hconnection (Bool.eq_false_iff.mp hplain.notConnection)
    · obtain rfl := Option.some.inj (hd'.symm.trans hd)
      obtain rfl := Option.some.inj (hf'.symm.trans hf)
      exact ⟨node, u, hexpanded, hu, hne, rfl⟩
  · rintro ⟨node, u, hexpanded, hu, hne, rfl⟩
    have hstep : s.ConnectionStep expand type f.name node := ⟨d, f, hd, hf, hexpanded⟩
    exact h.get?_eq_some_iff.mpr ⟨f.name, _, u, hstep.sets, hu, hne, rfl, rfl⟩

/-- A full selection enters its type. -/
theorem level_of_fullSelection (hs : s.WellFormed)
    (h : s.fullSelection pageSize maxDepth expand type = .ok t)
    (hd : s.descriptor? type = some d) : s.Level pageSize maxDepth [] expand type d t := by
  obtain ⟨d', hd', hlevel⟩ := level_of_new hs h List.not_mem_nil
  obtain rfl := Option.some.inj (hd'.symm.trans hd)
  exact hlevel

/-- The entries of a connection of the type are not empty exactly if a trail leads from them to
    scalars and does not come back to the type. -/
theorem isEmpty_entries_iff (hs : s.WellFormed) {origin : String}
    (h : s.fullSelectionWithin pageSize maxDepth [origin] [] type = .ok t) :
    t.isEmpty = false ↔ ∃ fields types last, s.Trail type fields types last ∧
      (origin :: types).Nodup ∧ fields.length + 1 ≤ maxDepth ∧ s.ListsScalars last := by
  rw [isEmpty_eq_false_iff hs h]
  constructor
  · rintro ⟨fields, more, last, -, htrail, hlast⟩
    obtain ⟨types, htrail, hnodup, hlength⟩ := openTrail_singleton_iff.mp htrail
    exact ⟨fields ++ more, types, last, htrail, hnodup, hlength, hlast⟩
  · rintro ⟨fields, types, last, htrail, hnodup, hlength, hlast⟩
    have hopen := openTrail_singleton_iff.mpr ⟨types, htrail, hnodup, hlength⟩
    exact ⟨[], fields, last, rfl, hopen, hlast⟩

end Root

/-! ## 2. What is reached -/

/-- A full selection of the type that it is seen as, made where no connections are asked for. -/
def Made (s : Schema) (pageSize : Nat) (type? : Option String) (t : Selection) : Prop :=
  ∃ type room ancestors, type? = some type ∧
    s.fullSelectionWithin pageSize room ancestors [] type = .ok t

/-- A selection without arguments, and without connections of the type that it is seen as. -/
def Unpaged (s : Schema) (type? : Option String) (t : Selection) : Prop :=
  t.arguments = [] ∧ ∀ type key, type? = some type → s.ConnectionKey type key → t.get? key = none

section Reached

variable {s : Schema} {pageSize room : Nat} {ancestors : List String} {type : String}
  {end? : Option String} {keys : List Key} {t u : Selection}

/-- A plain step leads to where a request sees its key lead. -/
theorem PlainStep.target {field next : String} (h : s.PlainStep type field next) :
    (Key.field field).target? (s.descriptor? type) = some next := by
  obtain ⟨d, f, hd, hf, -, hnext⟩ := h
  exact target?_eq_some_iff.mpr ⟨d, f, hd, hf, hnext⟩

theorem PlainStep.not_connectionKey {field next : String} (h : s.PlainStep type field next) :
    ¬ s.ConnectionKey type (.field field) := by
  obtain ⟨d, f, hd, hf, hplain, -⟩ := h
  rintro ⟨d', name, f', hname, hd', hf', hconnection⟩
  cases hname
  obtain rfl := Option.some.inj (hd'.symm.trans hd)
  obtain rfl := Option.some.inj (hf'.symm.trans hf)
  exact Bool.eq_false_iff.mp hplain.notConnection hconnection

/-- A full selection is not paged where no connections are asked for. -/
theorem unpaged_of_ok (hs : s.WellFormed)
    (h : s.fullSelectionWithin pageSize room ancestors [] type = .ok t) :
    s.Unpaged (some type) t := by
  obtain ⟨d, -, ⟨rfl, -⟩ | ⟨-, room, rfl, hlevel⟩⟩ := level_of_ok hs h
  · exact ⟨rfl, fun _ _ _ _ => rfl⟩
  · refine ⟨hlevel.arguments, fun B key htype hconnection => ?_⟩
    cases htype
    refine Option.eq_none_iff_forall_ne_some.mpr fun item hget => ?_
    obtain ⟨field, next, _, rfl, hstep, -⟩ :=
      (hlevel.get?_plain_iff (plainKey_nil s type key)).mp hget
    exact hstep.not_connectionKey hconnection

/-- What is made where no connections are asked for is not paged. -/
theorem Made.unpaged (hs : s.WellFormed) (h : s.Made pageSize end? t) : s.Unpaged end? t := by
  obtain ⟨type, room, ancestors, rfl, h⟩ := h
  exact unpaged_of_ok hs h

/-- All that it holds is made for the type that it is seen as. -/
theorem made_of_reached (hs : s.WellFormed)
    (h : s.fullSelectionWithin pageSize room ancestors [] type = .ok t)
    (hu : t.Reached s (some type) keys end? u) : s.Made pageSize end? u := by
  induction keys generalizing room ancestors type t with
  | nil =>
    cases hu
    exact ⟨type, room, ancestors, rfl, h⟩
  | cons key keys ih =>
    cases hu with
    | under hitem hu =>
      obtain ⟨d, room, hd, -, rfl, hlevel⟩ :=
        exists_level hs h (Selection.isEmpty_eq_false_of_mem hitem)
      obtain ⟨field, next, v, rfl, hstep, hv, -, hchild⟩ :=
        (hlevel.get?_plain_iff (plainKey_nil s type key)).mp (hlevel.get?_of_mem hs hd hitem)
      cases hchild
      rw [Option.bind_some, hstep.target] at hu
      exact ih hv hu

/-- In a connection the walk comes to what is around the entries, or to what is made for a type. -/
theorem wrapper_or_made (hs : s.WellFormed) {connection : String} {route : ConnectionRoute}
    {entries : Selection} (hleads : s.Leads connection type route)
    (h : s.fullSelectionWithin pageSize room ancestors [] type = .ok entries)
    (hu : (route.wrap pageSize entries).Reached s (some connection) keys end? u) :
    route.Wrapper pageSize entries keys u ∨ s.Made pageSize end? u := by
  cases hu with
  | here => exact Or.inl (.connection route)
  | under hitem hu =>
    cases route with
    | nodes =>
      rw [items_wrap_nodes, List.mem_cons, List.mem_singleton] at hitem
      rcases hitem with heq | heq
      · cases heq
        rw [Option.bind_some, hleads] at hu
        exact Or.inr (made_of_reached hs h hu)
      · cases heq
        obtain ⟨rfl, rfl⟩ := Plan.eq_nil_of_reached_pageInfo hu
        exact Or.inl (.pageInfo .nodes)
    | edges =>
      obtain ⟨edge, hedge, hnode⟩ := hleads
      rw [items_wrap_edges, List.mem_cons, List.mem_singleton] at hitem
      rcases hitem with heq | heq
      · cases heq
        rw [Option.bind_some, hedge] at hu
        cases hu with
        | here => exact Or.inl .edges
        | under hitem hu =>
          cases List.mem_singleton.mp hitem
          rw [Option.bind_some, hnode] at hu
          exact Or.inr (made_of_reached hs h hu)
      · cases heq
        obtain ⟨rfl, rfl⟩ := Plan.eq_nil_of_reached_pageInfo hu
        exact Or.inl (.pageInfo .edges)

end Reached

/-! ## 3. The connections of a full selection -/

/-- A key that a paged connection of the type brings, at its place in the selection. -/
inductive WrapperKey (s : Schema) (type : String) : List Key → Key → Prop where
  | nodes {c : Key} (h : s.ConnectionKey type c) : WrapperKey s type [c] (.field "nodes")
  | edges {c : Key} (h : s.ConnectionKey type c) : WrapperKey s type [c] (.field "edges")
  | node {c : Key} (h : s.ConnectionKey type c) :
      WrapperKey s type [c, .field "edges"] (.field "node")
  | pageInfo {c : Key} (h : s.ConnectionKey type c) : WrapperKey s type [c] (.field "pageInfo")

section Connections

variable {s : Schema} {pageSize maxDepth : Nat} {expand : List String} {type : String}
  {d : TypeDescriptor} {f : FieldDescriptor} {t : Selection}

/-- A connection is there exactly if it is followed and a trail leads from its entries to scalars,
    and does not come back to the type. -/
theorem hasField_connection_iff (hs : s.WellFormed)
    (h : s.fullSelection pageSize maxDepth expand type = .ok t) (hd : s.descriptor? type = some d)
    (hf : d.field? f.name = some f) (hconnection : f.isConnection = true) :
    t.hasField f.name = true ↔ ∃ node, f.Expanded expand node ∧ ∃ fields types last,
      s.Trail node.type fields types last ∧ (type :: types).Nodup ∧
      fields.length + 1 ≤ maxDepth ∧ s.ListsScalars last := by
  have hlevel := level_of_fullSelection hs h hd
  rw [Selection.hasField, Option.isSome_iff_exists]
  constructor
  · rintro ⟨item, hget⟩
    obtain ⟨node, u, hexpanded, hu, hne, -⟩ :=
      (hlevel.get?_connection_iff hd hf hconnection).mp hget
    exact ⟨node, hexpanded, (isEmpty_entries_iff hs hu).mp hne⟩
  · rintro ⟨node, hexpanded, htrail⟩
    have hstep : s.ConnectionStep expand type f.name node := ⟨d, f, hd, hf, hexpanded⟩
    obtain ⟨u, hu⟩ := hlevel.followed hstep.sets
    have hne := (isEmpty_entries_iff hs hu).mpr htrail
    exact ⟨_, (hlevel.get?_connection_iff hd hf hconnection).mpr
      ⟨node, u, hexpanded, hu, hne, rfl⟩⟩

/-- What is reached is the selection itself, is made for a type, or is around the entries of a
    connection. -/
theorem made_or_wrapper (hs : s.WellFormed)
    (h : s.fullSelection pageSize maxDepth expand type = .ok t) {keys : List Key}
    {end? : Option String} {u : Selection} (hu : t.Reached s (some type) keys end? u) :
    (keys = [] ∧ end? = some type ∧ u = t) ∨ s.Made pageSize end? u ∨
      ∃ c rest route entries, s.ConnectionKey type c ∧ keys = c :: rest ∧
        ConnectionRoute.Wrapper pageSize entries route rest u := by
  obtain ⟨d, hd, hlevel⟩ := level_of_new hs h List.not_mem_nil
  cases hu with
  | here => exact Or.inl ⟨rfl, rfl, rfl⟩
  | under hitem hu =>
    obtain ⟨field, goal, v, hsets, hv, -, rfl, hchild⟩ :=
      hlevel.get?_eq_some_iff.mp (hlevel.get?_of_mem hs hd hitem)
    rcases hsets.step with ⟨next, rfl, hstep⟩ | ⟨node, rfl, hstep⟩
    · cases hchild
      rw [Option.bind_some, hstep.target] at hu
      exact Or.inr (Or.inl (made_of_reached hs hv hu))
    · cases hchild
      obtain ⟨d', f, hd', hf, hexpanded⟩ := hstep
      have hleads := leads_of_connectionNode? (connectionNode?_of_field? hd' hf hexpanded.entries)
      rw [Option.bind_some, target?_eq_some_iff.mpr ⟨d', f, hd', hf, rfl⟩] at hu
      refine Or.inr ((wrapper_or_made hs hleads hv hu).symm.imp_right fun hwrapper => ?_)
      have hkey : s.ConnectionKey type (.field field) :=
        ⟨d', field, f, rfl, hd', hf, hexpanded.connection⟩
      exact ⟨_, _, node.route, v, hkey, rfl, hwrapper⟩

/-- What is reached is the selection itself, is not paged, or is around the entries of a
    connection. -/
theorem reached_cases (hs : s.WellFormed)
    (h : s.fullSelection pageSize maxDepth expand type = .ok t) {keys : List Key}
    {end? : Option String} {u : Selection} (hu : t.Reached s (some type) keys end? u) :
    (keys = [] ∧ u.arguments = []) ∨ s.Unpaged end? u ∨
      ∃ c rest route entries, s.ConnectionKey type c ∧ keys = c :: rest ∧
        ConnectionRoute.Wrapper pageSize entries route rest u := by
  rcases made_or_wrapper hs h hu with ⟨rfl, -, rfl⟩ | hmade | hwrapper
  · obtain ⟨d, -, hlevel⟩ := level_of_new hs h List.not_mem_nil
    exact Or.inl ⟨rfl, hlevel.arguments⟩
  · exact Or.inr (Or.inl (hmade.unpaged hs))
  · exact Or.inr (Or.inr hwrapper)

/-- The keys of a connection, at its top. -/
theorem wrapperKey_of_wrap {c key : Key} (h : s.ConnectionKey type c) {route : ConnectionRoute}
    {entries : Selection} {item : Item}
    (hget : (route.wrap pageSize entries).get? key = some item) : s.WrapperKey type [c] key := by
  have hmem := Table.mem_of_get? hget
  cases route with
  | nodes =>
    rw [items_wrap_nodes, List.mem_cons, List.mem_singleton] at hmem
    rcases hmem with heq | heq
    · cases heq
      exact .nodes h
    · cases heq
      exact .pageInfo h
  | edges =>
    rw [items_wrap_edges, List.mem_cons, List.mem_singleton] at hmem
    rcases hmem with heq | heq
    · cases heq
      exact .edges h
    · cases heq
      exact .pageInfo h

/-- The keys around the entries of a connection, and the two leaves of its `pageInfo`. -/
theorem key_of_wrapper {c key : Key} {rest : List Key} {route : ConnectionRoute}
    {entries u : Selection} {item : Item} (hc : s.ConnectionKey type c)
    (h : route.Wrapper pageSize entries rest u) (hget : u.get? key = some item) :
    s.WrapperKey type (c :: rest) key ∨ (rest = [.field "pageInfo"] ∧ item = .leaf ∧
      (key = .field "hasNextPage" ∨ key = .field "endCursor")) := by
  cases h with
  | connection => exact Or.inl (wrapperKey_of_wrap hc hget)
  | edges =>
    cases List.mem_singleton.mp (Table.mem_of_get? hget)
    exact Or.inl (.node hc)
  | pageInfo =>
    have hmem := Table.mem_of_get? hget
    rw [items_pageInfo, List.mem_cons, List.mem_singleton] at hmem
    rcases hmem with heq | heq
    · cases heq
      exact Or.inr ⟨rfl, rfl, Or.inl rfl⟩
    · cases heq
      exact Or.inr ⟨rfl, rfl, Or.inr rfl⟩

/-- **The connections of a full selection.**

    * A connection of the type is there exactly if `expand` names it, it is no scalar and needs no
      arguments, its entries are of another type that can be found, and from there simple plain
      steps lead to scalars without coming to the type.
    * Its value has the page size as its only argument, the entries under `nodes` or
      `edges { node }`, and `pageInfo { hasNextPage endCursor }`.
    * Nothing else has arguments. No other connection is among the keys of what is reached, but for
      the keys `nodes`, `edges`, `node` and `pageInfo` of these values, and the leaves `hasNextPage`
      and `endCursor` of their `pageInfo`, whatever the schema says of these names. -/
theorem connections_of_fullSelection (hs : s.WellFormed)
    (h : s.fullSelection pageSize maxDepth expand type = .ok t) :
    (∀ d f, s.descriptor? type = some d → d.field? f.name = some f → f.isConnection = true →
      (t.hasField f.name = true ↔
        f.name ∈ expand ∧ f.isScalar = false ∧ f.needsArguments = false ∧ 1 ≤ maxDepth ∧
          ∃ node, f.node? = some node ∧ node.type ≠ type ∧ ∃ fields types last,
            s.Trail node.type fields types last ∧ types.Nodup ∧ type ∉ types ∧
            fields.length ≤ maxDepth - 1 ∧ s.ListsScalars last) ∧
      ∀ item, t.get? (.field f.name) = some item → ∃ node entries, f.node? = some node ∧
        s.fullSelectionWithin pageSize maxDepth [type] [] node.type = .ok entries ∧
        item = .node ⟨[("first", .ofNat pageSize)], false, [node.route.entry entries,
          (.field "pageInfo",
            .node ⟨[], false, [(.field "hasNextPage", .leaf), (.field "endCursor", .leaf)]⟩)]⟩) ∧
    ∀ keys end? u, t.Reached s (some type) keys end? u →
      (u.arguments ≠ [] → ∃ c, s.ConnectionKey type c ∧ keys = [c]) ∧
      ∀ B key item, end? = some B → s.ConnectionKey B key → u.get? key = some item →
        keys = [] ∨ s.WrapperKey type keys key ∨
          (item = .leaf ∧ (key = .field "hasNextPage" ∨ key = .field "endCursor") ∧
            ∃ c, s.ConnectionKey type c ∧ keys = [c, .field "pageInfo"]) := by
  refine ⟨fun d f hd hf hconnection => ⟨?_, fun item hget => ?_⟩, fun keys end? u hu => ?_⟩
  · rw [hasField_connection_iff hs h hd hf hconnection]
    constructor
    · rintro ⟨node, hexpanded, fields, types, last, htrail, hnodup, hlength, hlast⟩
      obtain ⟨hnew, hnodup⟩ := List.nodup_cons.mp hnodup
      have hother : node.type ≠ type := fun heq => hnew (heq ▸ htrail.mem)
      refine ⟨hexpanded.named, hexpanded.notScalar, hexpanded.noArguments, by omega, node,
        hexpanded.entries, hother, fields, types, last, htrail, hnodup, hnew, by omega, hlast⟩
    · rintro ⟨hnamed, hscalar, harguments, hdepth, node, hentries, -, fields, types, last, htrail,
        hnodup, hnew, hlength, hlast⟩
      exact ⟨node, ⟨hnamed, hscalar, hconnection, harguments, hentries⟩, fields, types, last,
        htrail, List.nodup_cons.mpr ⟨hnew, hnodup⟩, by omega, hlast⟩
  · obtain ⟨node, entries, hexpanded, hentries, -, rfl⟩ :=
      ((level_of_fullSelection hs h hd).get?_connection_iff hd hf hconnection).mp hget
    rw [ConnectionRoute.wrap_eq]
    exact ⟨node, entries, hexpanded.entries, hentries, rfl⟩
  · rcases reached_cases hs h hu with ⟨rfl, harguments⟩ | ⟨harguments, hplain⟩ |
      ⟨c, rest, route, entries, hc, rfl, hwrapper⟩
    · exact ⟨fun hne => absurd harguments hne, fun _ _ _ _ _ _ => Or.inl rfl⟩
    · refine ⟨fun hne => absurd harguments hne, fun B key item hend hkey hget => ?_⟩
      rw [hplain B key hend hkey] at hget
      cases hget
    · refine ⟨fun hne => ?_, fun B key item _ _ hget => ?_⟩
      · cases hwrapper with
        | connection => exact ⟨c, hc, rfl⟩
        | edges => exact absurd rfl hne
        | pageInfo => exact absurd rfl hne
      · rcases key_of_wrapper hc hwrapper hget with hkey | ⟨rfl, hleaf, hkey⟩
        · exact Or.inr (Or.inl hkey)
        · exact Or.inr (Or.inr ⟨hleaf, hkey, c, hc, rfl⟩)

/-- The media are in the full selection of a product, so a trail leads from them to scalars; nothing
    but the media has arguments. -/
theorem connections_of_product :
    product.fullSelection 25 2 ["media"] "Product" = .ok productSelection ∧
      (∃ fields types last, product.Trail "Media" fields types last ∧ fields.length ≤ 1 ∧
        product.ListsScalars last) ∧
      ∀ keys end? u, productSelection.Reached product (some "Product") keys end? u →
        u.arguments ≠ [] → keys.length = 1 := by
  have hfull : product.fullSelection 25 2 ["media"] "Product" = .ok productSelection := rfl
  obtain ⟨hconnections, hreached⟩ := connections_of_fullSelection wellFormed_product hfull
  refine ⟨hfull, ?_, fun keys end? u hu hne => ?_⟩
  · have hmedia := hconnections _ ⟨"media", "MediaConnection", false, true, some ⟨"Media", .edges⟩,
      false⟩ rfl rfl rfl
    obtain ⟨-, -, -, -, node, hnode, -, fields, types, last, htrail, -, -, hlength, hlast⟩ :=
      hmedia.1.mp rfl
    cases hnode
    exact ⟨fields, types, last, htrail, hlength, hlast⟩
  · obtain ⟨c, -, rfl⟩ := (hreached keys end? u hu).1 hne
    rfl

/-- A shop whose products come in pages that say in a connection whether there are more. -/
def flagged : Schema where
  types := [
    ("Shop", ⟨["name"], [("products", ⟨"ProductConnection!", []⟩)]⟩),
    ("ProductConnection",
      ⟨[], [("nodes", ⟨"[Product!]!", []⟩), ("pageInfo", ⟨"PageInfo!", []⟩)]⟩),
    ("Product", ⟨["title"], []⟩),
    ("PageInfo", ⟨[], [("hasNextPage", ⟨"FlagConnection!", []⟩)]⟩)]
  connectionSuffix := defaultConnectionSuffix

/-- The full selection of that shop with its products. -/
def flaggedSelection : Selection :=
  ⟨[], true, [(.field "products", .node (ConnectionRoute.nodes.wrap 25 .scalars))]⟩

theorem wellFormed_flagged : flagged.WellFormed := by
  simp [WellFormed, flagged]

theorem reached_pageInfo : flaggedSelection.Reached flagged (some "Shop")
    [.field "products", .field "pageInfo"] (some "PageInfo") .pageInfo :=
  .under List.mem_cons_self (.under (List.mem_cons_of_mem _ List.mem_cons_self) .here)

/-- A connection brings no key below its `pageInfo`. -/
theorem not_wrapperKey_below_pageInfo {c key : Key} :
    ¬ s.WrapperKey type [c, .field "pageInfo"] key := by
  intro h
  generalize hkeys : [c, .field "pageInfo"] = keys at h
  cases h <;> simp at hkeys

/-- A full selection can hold a connection that is neither one of its type nor around the entries of
    one: a leaf of `pageInfo`. -/
theorem exists_connectionKey_leaf :
    ∃ (s : Schema) (pageSize maxDepth : Nat) (expand : List String) (type : String)
      (t : Selection), s.WellFormed ∧ s.fullSelection pageSize maxDepth expand type = .ok t ∧
        ∃ keys B u key item, t.Reached s (some type) keys (some B) u ∧ u.get? key = some item ∧
          s.ConnectionKey B key ∧ keys ≠ [] ∧ ¬ s.WrapperKey type keys key :=
  ⟨flagged, 25, 2, ["products"], "Shop", flaggedSelection, wellFormed_flagged, rfl,
    [.field "products", .field "pageInfo"], "PageInfo", .pageInfo, .field "hasNextPage", .leaf,
    reached_pageInfo, rfl, ⟨_, _, _, rfl, rfl, rfl, rfl⟩, List.cons_ne_nil _ _,
    not_wrapperKey_below_pageInfo⟩

end Connections

end Schema

end FieldSelection
