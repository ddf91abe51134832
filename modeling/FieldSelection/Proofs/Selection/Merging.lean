import FieldSelection.Proofs.Grammar.Derivation
import FieldSelection.Proofs.Table

/-!
# Merging one selection after another

Merging keeps selections well formed (`WellFormed.merge`), and three selections may be merged in
either order (`merge_merge`): what holds of tables (`Table.mergeWith_alter`) is taken down the tree
of the last one. With the empty selection, which may stand on either side, and since a selection
takes itself in (`merge_self`), this makes merging an idempotent monoid, the order of keys and of
arguments included (`merge_idempotentMonoid`).

A selection that items were merged into one after another may itself be merged into another one, in
place of its items (`merge_mergeAll`).
-/

namespace FieldSelection

/-! ## 1. Well-formed selections -/

theorem Literal.entriesWellFormed_iff {es : List (String × Literal)} :
    Literal.EntriesWellFormed es ↔ ∀ e ∈ es, e.2.WellFormed := by
  induction es with
  | nil => simp [Literal.EntriesWellFormed]
  | cons e rest ih => rw [List.forall_mem_cons, ← ih, Literal.EntriesWellFormed]

theorem Literal.EntriesWellFormed.putAll {es fs : List (String × Literal)}
    (h : Literal.EntriesWellFormed es) (h' : Literal.EntriesWellFormed fs) :
    Literal.EntriesWellFormed (Table.putAll es fs) := by
  rw [Literal.entriesWellFormed_iff] at *
  intro e he
  exact (Table.mem_putAll he).elim (h e) (h' e)

namespace Selection

@[simp] theorem arguments_merge (s t : Selection) :
    (s.merge t).arguments = Table.putAll s.arguments t.arguments := by
  cases s
  cases t
  rw [merge]
  rfl

@[simp] theorem allScalars_merge (s t : Selection) :
    (s.merge t).allScalars = (s.allScalars || t.allScalars) := by
  cases s
  cases t
  rw [merge]
  rfl

/-- Merging items is merging tables. -/
theorem mergeItems_eq (is js : List (Key × Item)) :
    mergeItems is js = Table.mergeWith Item.merge is js := by
  induction js generalizing is with
  | nil => exact mergeItems_nil is
  | cons e rest ih => exact (mergeItems_cons is e.1 e.2 rest).trans (ih _)

/-- Items under new keys go to the end. -/
theorem mergeItems_eq_append {is js : List (Key × Item)} (h : (Table.keys (is ++ js)).Nodup) :
    mergeItems is js = is ++ js :=
  (mergeItems_eq is js).trans (Table.mergeWith_eq_append Item.merge h)

theorem itemsWellFormed_iff {is : List (Key × Item)} :
    ItemsWellFormed is ↔ ∀ e ∈ is, e.2.WellFormed := by
  induction is with
  | nil => simp [ItemsWellFormed]
  | cons e rest ih => rw [List.forall_mem_cons, ← ih, ItemsWellFormed]

/-- Changing an item or adding one keeps items that are well formed. -/
theorem ItemsWellFormed.alter {key : Key} {fresh : Item} {onto : Item → Item}
    (hfresh : fresh.WellFormed) (honto : ∀ old : Item, old.WellFormed → (onto old).WellFormed)
    {is : List (Key × Item)} (h : ItemsWellFormed is) :
    ItemsWellFormed (Table.alter key fresh onto is) := by
  rw [itemsWellFormed_iff] at *
  exact Table.forall_mem_alter hfresh honto h

/-- Merging items never doubles a key. -/
theorem nodup_keys_mergeItems (js : List (Key × Item)) {is : List (Key × Item)}
    (h : (Table.keys is).Nodup) : (Table.keys (mergeItems is js)).Nodup := by
  induction js generalizing is with
  | nil => rwa [mergeItems_nil]
  | cons e rest ih =>
    rw [mergeItems_cons]
    exact ih (Table.nodup_keys_alter e.1 e.2 _ is h)

end Selection

mutual

/-- Merging keeps selections well formed. -/
theorem Selection.WellFormed.merge : ∀ {s r : Selection}, r.WellFormed → s.WellFormed →
    (r.merge s).WellFormed
  | ⟨b, _, js⟩, ⟨a, _, is⟩, ⟨⟨hnodup, ha⟩, hkeys, his⟩, ⟨⟨_, hb⟩, _, hjs⟩ => by
      rw [Selection.merge]
      exact ⟨⟨Table.nodup_keys_putAll b a hnodup, ha.putAll hb⟩,
        Selection.nodup_keys_mergeItems js hkeys, Selection.ItemsWellFormed.merge his hjs⟩

theorem Selection.ItemsWellFormed.merge : ∀ {js is : List (Key × Item)},
    Selection.ItemsWellFormed is → Selection.ItemsWellFormed js →
      Selection.ItemsWellFormed (Selection.mergeItems is js)
  | [], _, h, _ => by rwa [Selection.mergeItems_nil]
  | (key, item) :: rest, is, h, ⟨hitem, hrest⟩ => by
      rw [Selection.mergeItems_cons]
      have honto : ∀ old : Item, old.WellFormed → (old.merge item).WellFormed :=
        fun old hold => Item.WellFormed.merge hold hitem
      exact Selection.ItemsWellFormed.merge (h.alter hitem honto) hrest

theorem Item.WellFormed.merge : ∀ {new old : Item}, old.WellFormed → new.WellFormed →
    (old.merge new).WellFormed
  | .leaf, _, h, _ => by rwa [Item.merge]
  | .node _, .leaf, _, h => by rwa [Item.merge]
  | .node s, .node r, h, h' => by
      rw [Item.merge]
      exact Selection.WellFormed.merge (s := s) (r := r) h h'

end

/-! ## 2. Three selections -/

mutual

/-- **Three selections may be merged in either order.** -/
theorem Selection.merge_merge : ∀ {t : Selection} (r : Selection) {s : Selection},
    s.WellFormed → t.WellFormed → r.merge (s.merge t) = (r.merge s).merge t
  | ⟨c, v, ks⟩, ⟨a, w, is⟩, ⟨b, u, js⟩, ⟨⟨hnodup, _⟩, hkeys, hjs⟩, ⟨_, _, hks⟩ => by
      rw [Selection.merge, Selection.merge, Selection.merge, Selection.merge,
        Table.putAll_putAll a hnodup, Bool.or_assoc,
        Selection.mergeItems_mergeItems is hkeys hjs hks]

theorem Selection.mergeItems_mergeItems : ∀ {ks : List (Key × Item)} (is : List (Key × Item))
    {js : List (Key × Item)}, (Table.keys js).Nodup → Selection.ItemsWellFormed js →
      Selection.ItemsWellFormed ks →
        Selection.mergeItems is (Selection.mergeItems js ks) =
          Selection.mergeItems (Selection.mergeItems is js) ks
  | [], is, js, _, _, _ => by rw [Selection.mergeItems_nil, Selection.mergeItems_nil]
  | (key, item) :: rest, is, js, hkeys, hjs, ⟨hitem, hrest⟩ => by
      have honto : ∀ old : Item, old.WellFormed → (old.merge item).WellFormed :=
        fun old hold => Item.WellFormed.merge hold hitem
      have hassoc : ∀ old y, Table.get? key js = some y →
          (Item.merge old y).merge item = old.merge (Item.merge y item) := by
        intro old y hy
        have hold : y.WellFormed := Selection.itemsWellFormed_iff.mp hjs _ (Table.mem_of_get? hy)
        exact (Item.merge_merge old hold hitem).symm
      have hstep : Selection.mergeItems is (Table.alter key item (fun old => old.merge item) js) =
          Table.alter key item (fun old => old.merge item) (Selection.mergeItems is js) := by
        rw [Selection.mergeItems_eq, Selection.mergeItems_eq]
        exact Table.mergeWith_alter Item.merge hkeys hassoc
      rw [Selection.mergeItems_cons, Selection.mergeItems_cons, ← hstep]
      exact Selection.mergeItems_mergeItems is (Table.nodup_keys_alter key item _ js hkeys)
        (hjs.alter hitem honto) hrest

theorem Item.merge_merge : ∀ {z : Item} (x : Item) {y : Item}, y.WellFormed → z.WellFormed →
    x.merge (y.merge z) = (x.merge y).merge z
  | .leaf, x, y, _, _ => by
      rw [Item.merge, Item.merge]
  | .node t, x, .leaf, _, _ => by
      rw [Item.merge, Item.merge]
  | .node t, .leaf, .node s, _, _ => by
      rw [Item.merge, Item.merge, Item.merge]
  | .node t, .node r, .node s, h, h' => by
      rw [Item.merge, Item.merge, Item.merge, Item.merge]
      exact congrArg Item.node (Selection.merge_merge r (s := s) (t := t) h h')

end

namespace Selection

/-- **Merging a selection is merging the items that it was made of**, one after another. -/
theorem merge_mergeAll (s : Selection) {es : List (Key × Item)} (h : ItemsWellFormed es) :
    s.merge (empty.mergeAll es) = s.mergeAll es := by
  obtain ⟨a, w, is⟩ := s
  have hnil : (Table.keys ([] : List (Key × Item))).Nodup := List.nodup_nil
  have hitems : mergeItems is (mergeItems [] es) = mergeItems is es := by
    rw [mergeItems_mergeItems is hnil trivial h, mergeItems_nil]
  have hempty : empty.mergeAll es = ⟨[], false, mergeItems [] es⟩ := mergeAll_eq empty es
  have hall : mergeAll ⟨a, w, is⟩ es = ⟨a, w, mergeItems is es⟩ := mergeAll_eq _ es
  rw [hempty, hall, merge, hitems, Bool.or_false]
  rfl

end Selection

/-! ## 3. An idempotent monoid -/

/-- A selection may be merged into the empty one. -/
theorem Selection.empty_merge {s : Selection} (h : s.WellFormed) : Selection.empty.merge s = s := by
  obtain ⟨a, w, is⟩ := s
  obtain ⟨⟨hnodup, -⟩, hkeys, -⟩ := h
  have harguments : Table.putAll [] a = a := Table.putAll_eq_append hnodup
  have hitems : mergeItems [] is = is := mergeItems_eq_append hkeys
  rw [empty, merge, harguments, hitems, Bool.false_or]

mutual

/-- A selection takes itself in. -/
theorem Selection.merge_self : ∀ {s : Selection}, s.WellFormed → s.merge s = s
  | ⟨a, w, is⟩, ⟨⟨hnodup, _⟩, hkeys, his⟩ => by
      have harguments : Table.putAll a a = a :=
        Table.mergeWith_eq_self (f := fun _ new => new) fun e he =>
          ⟨e.2, Table.get?_of_mem hnodup he, rfl⟩
      have hitems : Table.mergeWith Item.merge is is = is :=
        Table.mergeWith_eq_self fun e he =>
          ⟨e.2, Table.get?_of_mem hkeys he, Selection.items_merge_self his e he⟩
      rw [Selection.merge, harguments, Bool.or_self, Selection.mergeItems_eq, hitems]

theorem Selection.items_merge_self : ∀ {is : List (Key × Item)}, Selection.ItemsWellFormed is →
    ∀ e ∈ is, Item.merge e.2 e.2 = e.2
  | [], _ => List.forall_mem_nil _
  | (_, _) :: _, ⟨hitem, hrest⟩ =>
      List.forall_mem_cons.mpr ⟨Item.merge_self hitem, Selection.items_merge_self hrest⟩

theorem Item.merge_self : ∀ {item : Item}, item.WellFormed → item.merge item = item
  | .leaf, _ => by rw [Item.merge]
  | .node s, h => by
      rw [Item.merge]
      exact congrArg Item.node (Selection.merge_self (s := s) h)

end

namespace Selection

/-- **Merging makes selections an idempotent monoid**, the order of keys and of arguments at every
    level included: it keeps them well formed and is associative, the empty selection may be left
    out on either side, and a selection takes itself in. -/
theorem merge_idempotentMonoid {r s t : Selection} (hr : r.WellFormed) (hs : s.WellFormed)
    (ht : t.WellFormed) :
    ((r.merge s).WellFormed ∧ empty.WellFormed) ∧
      (r.merge s).merge t = r.merge (s.merge t) ∧
      (empty.merge r = r ∧ r.merge empty = r) ∧ r.merge r = r :=
  ⟨⟨hr.merge hs, wellFormed_empty⟩, (merge_merge r hs ht).symm, ⟨empty_merge hr, merge_empty r⟩,
    merge_self hr⟩

/-- The price of an offer, and that there is something on it for search engines. -/
def offer : Selection :=
  ⟨[], false, [
    (.field "seo", .leaf),
    (.field "price", .node ⟨[("currency", .enum "USD"), ("net", .boolean true)], false,
      [(.field "amount", .leaf)]⟩)]⟩

/-- The price in another currency, what there is for search engines, and all scalar fields. -/
def listing : Selection :=
  ⟨[], true, [
    (.field "price", .node ⟨[("currency", .enum "EUR")], false, [(.field "symbol", .leaf)]⟩),
    (.field "seo", .node ⟨[], false, [(.field "title", .leaf)]⟩)]⟩

/-- The length of an offer that is a video, and its price as a whole. -/
def clip : Selection :=
  ⟨[], false, [
    (.onType "Video", .node ⟨[], false, [(.field "length", .leaf)]⟩),
    (.field "price", .leaf)]⟩

theorem wellFormed_offer : offer.WellFormed := by
  simp [offer, WellFormed, ItemsWellFormed, Item.WellFormed, Literal.EntriesWellFormed,
    Literal.WellFormed]

theorem wellFormed_listing : listing.WellFormed := by
  simp [listing, WellFormed, ItemsWellFormed, Item.WellFormed, Literal.EntriesWellFormed,
    Literal.WellFormed]

theorem wellFormed_clip : clip.WellFormed := by
  simp [clip, WellFormed, ItemsWellFormed, Item.WellFormed, Literal.EntriesWellFormed]

/-- What is merged of an offer, a listing and a clip, in either order: each key and each argument
    stands where it came first. -/
theorem merge_offer_listing_clip :
    (offer.WellFormed ∧ listing.WellFormed ∧ clip.WellFormed) ∧
      offer.merge (listing.merge clip) = ⟨[], true, [
        (.field "seo", .node ⟨[], false, [(.field "title", .leaf)]⟩),
        (.field "price", .node ⟨[("currency", .enum "EUR"), ("net", .boolean true)], false,
          [(.field "amount", .leaf), (.field "symbol", .leaf)]⟩),
        (.onType "Video", .node ⟨[], false, [(.field "length", .leaf)]⟩)]⟩ ∧
      (offer.merge listing).merge clip = offer.merge (listing.merge clip) ∧
      empty.merge offer = offer ∧ offer.merge offer = offer := by
  obtain ⟨-, hassoc, ⟨hempty, -⟩, hself⟩ :=
    merge_idempotentMonoid wellFormed_offer wellFormed_listing wellFormed_clip
  exact ⟨⟨wellFormed_offer, wellFormed_listing, wellFormed_clip⟩, rfl, hassoc, hempty, hself⟩

end Selection

end FieldSelection
