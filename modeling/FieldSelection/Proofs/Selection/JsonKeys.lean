import FieldSelection.Proofs.Selection.Parsed
import FieldSelection.Proofs.Selection.Places
import FieldSelection.Selection.Document
import Mathlib.Data.List.Nodup

/-!
# The keys in the JSON form of a selection

In the JSON form the reserved keys, the fields and the type conditions of a selection share one
object, and nothing is escaped.

* `Json.UniqueKeys` says that no object in a document has a key twice, at any depth. The JSON form
  of a literal has unique keys if no name occurs twice in it (`uniqueKeys_toJson`).
* The JSON form of a selection has unique keys exactly if every node in it is `Unambiguous`
  (`uniqueKeys_toJson_iff`): no field has the key of a type condition that is there too, or of the
  arguments or of the mark, where these are written.
* What is read from a text carries no mark, so its keys collide through type conditions and through
  arguments only (`uniqueKeys_toJson_of_parseWithin`). They do: nothing keeps a field from the name
  `on_Video` or `__args` (`not_uniqueKeys_toJson`).
-/

namespace FieldSelection

open Grammar

/-! ## 1. Documents with unique keys -/

mutual

/-- No object in a document has a key twice. -/
def Json.UniqueKeys : Json → Prop
  | .array items => Json.ItemsUniqueKeys items
  | .object entries => (Table.keys entries).Nodup ∧ Json.EntriesUniqueKeys entries
  | _ => True

/-- The items of an array have unique keys. -/
def Json.ItemsUniqueKeys : List Json → Prop
  | [] => True
  | item :: rest => Json.UniqueKeys item ∧ Json.ItemsUniqueKeys rest

/-- The values of entries have unique keys. -/
def Json.EntriesUniqueKeys : List (String × Json) → Prop
  | [] => True
  | (_, value) :: rest => Json.UniqueKeys value ∧ Json.EntriesUniqueKeys rest

end

theorem Json.entriesUniqueKeys_iff {entries : List (String × Json)} :
    EntriesUniqueKeys entries ↔ ∀ e ∈ entries, e.2.UniqueKeys := by
  induction entries with
  | nil => simp [EntriesUniqueKeys]
  | cons e rest ih => rw [List.forall_mem_cons, ← ih, EntriesUniqueKeys]

theorem Literal.keys_entriesToJson (entries : List (String × Literal)) :
    Table.keys (entriesToJson entries) = Table.keys entries := by
  induction entries with
  | nil => rfl
  | cons e rest ih => rw [entriesToJson, Table.keys_cons, Table.keys_cons, ih]

mutual

/-- The JSON form of a well-formed literal has unique keys. -/
theorem Literal.uniqueKeys_toJson : ∀ l : Literal, l.WellFormed → l.toJson.UniqueKeys
  | .string _, _ | .number _, _ | .boolean _, _ | .null, _ | .enum _, _ => trivial
  | .list items, h => Literal.itemsUniqueKeys_itemsToJson items h
  | .object entries, h =>
      ⟨(Literal.keys_entriesToJson entries).symm ▸ h.1,
        Literal.entriesUniqueKeys_entriesToJson entries h.2⟩

/-- The JSON forms of the items of a list have unique keys. -/
theorem Literal.itemsUniqueKeys_itemsToJson : ∀ items : List Literal,
    Literal.ItemsWellFormed items → Json.ItemsUniqueKeys (Literal.itemsToJson items)
  | [], _ => trivial
  | item :: rest, h =>
      ⟨Literal.uniqueKeys_toJson item h.1, Literal.itemsUniqueKeys_itemsToJson rest h.2⟩

/-- The JSON forms of entries have unique keys. -/
theorem Literal.entriesUniqueKeys_entriesToJson : ∀ entries : List (String × Literal),
    Literal.EntriesWellFormed entries → Json.EntriesUniqueKeys (Literal.entriesToJson entries)
  | [], _ => trivial
  | (_, value) :: rest, h =>
      ⟨Literal.uniqueKeys_toJson value h.1, Literal.entriesUniqueKeys_entriesToJson rest h.2⟩

end

/-! ## 2. The keys of one node -/

theorem Key.jsonKey_onType_ne {key : String} (h : key.toList.head? ≠ some 'o') (name : String) :
    (Key.onType name).jsonKey ≠ key := by
  rintro rfl
  rw [jsonKey, String.toList_append] at h
  exact h rfl

/-- Two keys are written alike only where a field has the name of a type condition ahead of it. -/
theorem Key.jsonKey_eq_iff {j k : Key} : j.jsonKey = k.jsonKey ↔
    j = k ∨ ∃ name, (j = .field ("on_" ++ name) ∧ k = .onType name) ∨
      (j = .onType name ∧ k = .field ("on_" ++ name)) := by
  cases j with
  | field m =>
    cases k <;> simp [jsonKey]
  | onType m =>
    cases k with
    | field n => simp [jsonKey, eq_comm]
    | onType n => simp [jsonKey, ← String.toList_inj]

namespace Selection

/-- No field has the key of a type condition that is there too. -/
def ConditionsApart (s : Selection) : Prop :=
  ∀ name, .onType name ∈ Table.keys s.items → .field ("on_" ++ name) ∉ Table.keys s.items

/-- No field has the key of the arguments, where there are arguments. -/
def ArgumentsApart (s : Selection) : Prop :=
  s.arguments ≠ [] → .field argumentsKey ∉ Table.keys s.items

/-- No field has the key of the mark, where the mark is set. -/
def MarkApart (s : Selection) : Prop :=
  s.allScalars = true → .field allScalarsKey ∉ Table.keys s.items

/-- No field has another key of its node. -/
structure Unambiguous (s : Selection) : Prop where
  conditions : s.ConditionsApart
  arguments : s.ArgumentsApart
  mark : s.MarkApart

/-- The entries of the JSON form of a selection that are no items: its arguments and its mark. -/
def reservedEntries (s : Selection) : List (String × Json) :=
  (if s.arguments.isEmpty then []
    else [(argumentsKey, .object (Literal.entriesToJson s.arguments))]) ++
  if s.allScalars then [(allScalarsKey, .boolean true)] else []

theorem toJson_eq (s : Selection) :
    s.toJson = .object (s.reservedEntries ++ itemsToJson s.items) := by
  obtain ⟨_, _, _⟩ := s
  rfl

/-- What holds of the arguments and of the mark holds of the reserved entries. -/
theorem forall_mem_reservedEntries {p : String × Json → Prop} {s : Selection}
    (harguments : p (argumentsKey, .object (Literal.entriesToJson s.arguments)))
    (hmark : p (allScalarsKey, .boolean true)) : ∀ e ∈ s.reservedEntries, p e := by
  refine List.forall_mem_append.mpr ⟨?_, ?_⟩
  · split
    · exact List.forall_mem_nil _
    · exact List.forall_mem_singleton.mpr harguments
  · split
    · exact List.forall_mem_singleton.mpr hmark
    · exact List.forall_mem_nil _

theorem nodup_keys_reservedEntries (s : Selection) : (Table.keys s.reservedEntries).Nodup := by
  unfold reservedEntries
  cases s.allScalars <;> cases s.arguments <;> simp [argumentsKey, allScalarsKey]

theorem mem_keys_reservedEntries {s : Selection} {key : String} :
    key ∈ Table.keys s.reservedEntries ↔ (key = argumentsKey ∧ s.arguments ≠ []) ∨
      (key = allScalarsKey ∧ s.allScalars = true) := by
  unfold reservedEntries
  cases s.allScalars <;> cases s.arguments <;> simp

/-- Only a field can have a reserved key. -/
theorem eq_field_of_mem_keys {s : Selection} {key : Key}
    (h : key.jsonKey ∈ Table.keys s.reservedEntries) : key = .field key.jsonKey := by
  cases key with
  | field name => rfl
  | onType name =>
    rcases mem_keys_reservedEntries.mp h with ⟨hkey, -⟩ | ⟨hkey, -⟩
    · exact absurd hkey (Key.jsonKey_onType_ne (by decide) name)
    · exact absurd hkey (Key.jsonKey_onType_ne (by decide) name)

/-- The keys of items are written apart exactly if the type conditions are. -/
theorem nodup_map_jsonKey_iff {s : Selection} (h : (Table.keys s.items).Nodup) :
    ((Table.keys s.items).map Key.jsonKey).Nodup ↔ s.ConditionsApart := by
  rw [List.nodup_map_iff_inj_on h]
  constructor
  · intro hinj name htype hfield
    cases hinj _ htype _ hfield rfl
  · intro hapart j hj k hk hkey
    rcases Key.jsonKey_eq_iff.mp hkey with rfl | ⟨name, ⟨rfl, rfl⟩ | ⟨rfl, rfl⟩⟩
    · rfl
    · exact absurd hj (hapart name hk)
    · exact absurd hk (hapart name hj)

theorem keys_itemsToJson (items : List (Key × Item)) :
    Table.keys (itemsToJson items) = (Table.keys items).map Key.jsonKey := by
  induction items with
  | nil => rfl
  | cons e rest ih => rw [itemsToJson, Table.keys_cons, Table.keys_cons, List.map_cons, ih]

/-- The object that a selection becomes has no key twice exactly if the selection is
    unambiguous. -/
theorem nodup_keys_toJson_iff {s : Selection} (h : (Table.keys s.items).Nodup) :
    (Table.keys (s.reservedEntries ++ itemsToJson s.items)).Nodup ↔ s.Unambiguous := by
  rw [Table.keys_append, keys_itemsToJson, List.nodup_append, nodup_map_jsonKey_iff h]
  constructor
  · rintro ⟨-, hapart, hne⟩
    refine ⟨hapart, fun harguments hmem => ?_, fun hmark hmem => ?_⟩
    · have hkey := mem_keys_reservedEntries.mpr (Or.inl ⟨rfl, harguments⟩)
      exact hne _ hkey _ (List.mem_map_of_mem hmem) rfl
    · have hkey := mem_keys_reservedEntries.mpr (Or.inr ⟨rfl, hmark⟩)
      exact hne _ hkey _ (List.mem_map_of_mem hmem) rfl
  · rintro ⟨hapart, harguments, hmark⟩
    refine ⟨s.nodup_keys_reservedEntries, hapart, ?_⟩
    rintro _ hreserved _ hitem rfl
    obtain ⟨key, hkey, rfl⟩ := List.mem_map.mp hitem
    -- A reserved key never starts as that of a type condition does, so the item is a field.
    rw [eq_field_of_mem_keys hreserved] at hkey
    rcases mem_keys_reservedEntries.mp hreserved with ⟨heq, hset⟩ | ⟨heq, hset⟩
    · exact harguments hset (heq ▸ hkey)
    · exact hmark hset (heq ▸ hkey)

end Selection

/-! ## 3. The keys of a whole selection -/

mutual

/-- **The JSON form of a selection has unique keys exactly if every node is unambiguous.** -/
theorem Selection.uniqueKeys_toJson_iff : ∀ s : Selection, s.WellFormed →
    (s.toJson.UniqueKeys ↔ s.Everywhere Selection.Unambiguous)
  | ⟨arguments, allScalars, items⟩, ⟨harguments, hkeys, hitems⟩ => by
      have hbag : (Json.object (Literal.entriesToJson arguments)).UniqueKeys :=
        Literal.uniqueKeys_toJson (.object arguments) harguments
      have hreserved := Selection.forall_mem_reservedEntries (p := fun e => e.2.UniqueKeys)
        (s := ⟨arguments, allScalars, items⟩) hbag trivial
      have htop := Selection.nodup_keys_toJson_iff (s := ⟨arguments, allScalars, items⟩) hkeys
      have hunder := Selection.uniqueKeys_itemsToJson_iff items hitems
      rw [Selection.toJson_eq, Json.UniqueKeys, htop, Json.entriesUniqueKeys_iff,
        List.forall_mem_append, and_iff_right hreserved, Selection.items_mk, hunder,
        Selection.everywhere_iff hkeys]

/-- The JSON forms of items have unique keys exactly if everything in them is unambiguous. -/
theorem Selection.uniqueKeys_itemsToJson_iff : ∀ items : List (Key × Item),
    Selection.ItemsWellFormed items →
      ((∀ e ∈ Selection.itemsToJson items, e.2.UniqueKeys) ↔
        ∀ e ∈ items, e.2.Everywhere Selection.Unambiguous)
  | [], _ => ⟨fun _ => List.forall_mem_nil _, fun _ => List.forall_mem_nil _⟩
  | (_, item) :: rest, ⟨hitem, hrest⟩ => by
      rw [Selection.itemsToJson, List.forall_mem_cons, List.forall_mem_cons,
        Item.uniqueKeys_toJson_iff item hitem, Selection.uniqueKeys_itemsToJson_iff rest hrest]

/-- The JSON form of an item has unique keys exactly if everything in it is unambiguous. -/
theorem Item.uniqueKeys_toJson_iff : ∀ item : Item, item.WellFormed →
    (item.toJson.UniqueKeys ↔ item.Everywhere Selection.Unambiguous)
  | .leaf, _ => ⟨fun _ => Item.everywhere_leaf _, fun _ => trivial⟩
  | .node s, h => Selection.uniqueKeys_toJson_iff s h

end

/-! ## 4. What is read -/

mutual

/-- Nothing in a plain selection is marked. -/
theorem Selection.unmarked_of_plain : ∀ s : Selection, s.WellFormed → s.Plain → s.Unmarked
  | ⟨_, _, items⟩, ⟨_, hkeys, hitems⟩, ⟨hmark, hplain⟩ =>
      (Selection.everywhere_iff hkeys).mpr
        ⟨hmark, Selection.itemsUnmarked_of_plain items hitems hplain⟩

/-- Nothing in plain items is marked. -/
theorem Selection.itemsUnmarked_of_plain : ∀ items : List (Key × Item),
    Selection.ItemsWellFormed items → Selection.ItemsPlain items →
      ∀ e ∈ items, e.2.Everywhere fun t => t.allScalars = false
  | [], _, _ => List.forall_mem_nil _
  | (key, item) :: rest, ⟨hitem, hrest⟩, ⟨hplain, hrest'⟩ =>
      List.forall_mem_cons.mpr ⟨Item.unmarked_of_plain key item hitem hplain,
        Selection.itemsUnmarked_of_plain rest hrest hrest'⟩

/-- Nothing in a plain item is marked. -/
theorem Item.unmarked_of_plain : ∀ (key : Key) (item : Item), item.WellFormed → item.Plain key →
    item.Everywhere fun t => t.allScalars = false
  | _, .leaf, _, _ => Item.everywhere_leaf _
  | .field _, .node s, hw, hp => Selection.unmarked_of_plain s hw hp
  | .onType _, .node s, hw, hp => Selection.unmarked_of_plain s hw hp.2

end

/-- **The keys in the JSON form of what is read from a text.** Nothing in it is marked, and no
    object has a key twice exactly if in every node no field has the key of a type condition that
    is there too, or of the arguments, where there are some. -/
theorem Selection.uniqueKeys_toJson_of_parseWithin {limit : Nat} {source : String} {s : Selection}
    (h : parseWithin limit source = .ok s) :
    s.Unmarked ∧
      (s.toJson.UniqueKeys ↔ s.Everywhere fun t => t.ConditionsApart ∧ t.ArgumentsApart) := by
  obtain ⟨ks, -, -, -, hfits⟩ := fits_of_parseWithin h
  obtain ⟨hw, -, hp, -, -⟩ := hfits.sound
  have hunmarked := s.unmarked_of_plain hw hp
  refine ⟨hunmarked, ?_⟩
  rw [s.uniqueKeys_toJson_iff hw]
  constructor
  · intro hall keys t hat
    exact ⟨(hall keys t hat).conditions, (hall keys t hat).arguments⟩
  · intro hall keys t hat
    obtain ⟨hconditions, harguments⟩ := hall keys t hat
    have hmark : t.MarkApart := fun hset => by
      rw [hunmarked keys t hat] at hset
      cases hset
    exact ⟨hconditions, harguments, hmark⟩

/-- The money of a price, with a field that has the key of arguments. -/
def Selection.money : Selection :=
  ⟨[], false, [(.field "__args", .leaf)]⟩

/-- A price with an argument, and with a field that has the key of another type condition. -/
def Selection.price : Selection :=
  ⟨[("currency", .enum "USD")], false, [(.field "on_Sale", .leaf), (.onType "Money", .node money)]⟩

/-- `price(currency: USD) { on_Sale ... on Money { __args } }` -/
def Selection.priced : Selection :=
  ⟨[], false, [(.field "price", .node price)]⟩

/-- The derivation of `price(currency: USD) { on_Sale ... on Money { __args } }`. -/
def Grammar.Document.priced : Document :=
  .bare [.nested none "price" (some [("currency", .word "USD")])
    [.leaf none "on_Sale", .fragment "Money" [.leaf none "__args"]]]

theorem Selection.everywhere_priced {p : Selection → Prop} (htop : p priced) (hprice : p price)
    (hmoney : p money) : priced.Everywhere p := by
  have hleaf := Item.everywhere_leaf p
  have hunder : money.Everywhere p :=
    (everywhere_iff (by simp)).mpr ⟨hmoney, List.forall_mem_singleton.mpr hleaf⟩
  have hnode : price.Everywhere p := (everywhere_iff (by simp)).mpr
    ⟨hprice, List.forall_mem_cons.mpr ⟨hleaf, List.forall_mem_singleton.mpr hunder⟩⟩
  exact (everywhere_iff (by simp)).mpr ⟨htop, List.forall_mem_singleton.mpr hnode⟩

/-- The keys of other nodes do no harm. -/
theorem Selection.uniqueKeys_priced :
    parseWithin 2 "price(currency: USD) { on_Sale ... on Money { __args } }" = .ok priced ∧
      priced.toJson.UniqueKeys := by
  have hread : parseWithin 2 "price(currency: USD) { on_Sale ... on Money { __args } }" =
      .ok priced :=
    parseWithin_of_kinds? (d := .priced) (by decide +kernel) (List.cons_ne_nil _ _) (Nat.le_refl 2)
  refine ⟨hread, (uniqueKeys_toJson_of_parseWithin hread).2.mpr ?_⟩
  apply everywhere_priced <;>
    simp [ConditionsApart, ArgumentsApart, priced, price, money, argumentsKey]

/-- A field can have the key of the arguments beside it, and the key of a type condition. -/
theorem Selection.not_uniqueKeys_toJson :
    (∃ s, parse "a(x: 1) { __args }" = .ok s ∧ ¬ s.toJson.UniqueKeys) ∧
      ∃ s, parse "on_Video ... on Video { id }" = .ok s ∧ ¬ s.toJson.UniqueKeys := by
  constructor
  · refine ⟨_, parseWithin_of_kinds? (d := .bare [.nested none "a"
      (some [("x", .number (.integer 1))]) [.leaf none "__args"]]) (by decide +kernel)
      (List.cons_ne_nil _ _) (by decide), fun h => ?_⟩
    have hkeys : ["__args", "__args"].Nodup := h.2.1.1
    exact absurd hkeys (by decide)
  · refine ⟨_, parseWithin_of_kinds? (d := .bare [.leaf none "on_Video",
      .fragment "Video" [.leaf none "id"]]) (by decide +kernel) (List.cons_ne_nil _ _)
      (by decide), fun h => ?_⟩
    have hkeys : ["on_Video", "on_Video"].Nodup := h.1
    exact absurd hkeys (by decide)

end FieldSelection
