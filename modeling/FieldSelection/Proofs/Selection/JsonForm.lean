import FieldSelection.Proofs.Json.Compact
import FieldSelection.Proofs.Selection.JsonKeys

/-!
# The JSON form determines the selection

A selection is read back from its JSON form: below `__args` stand the arguments, at `__scalars` the
mark, a key that starts with `on_` is a type condition, and all others are fields.

* Where no field has the key of anything else (`Unreserved`), that gives the selection again, only
  that a bare word has become a string (`ofJson_toJson`).
* So such selections have one JSON form exactly if they are the same up to words and strings
  (`toJson_inj`), and with integers for numbers they have one compact text only then
  (`compact_toJson_inj`).
-/

namespace FieldSelection

/-! ## 1. Words as strings -/

mutual

/-- The literal with strings for its words. -/
def Literal.wordsQuoted : Literal → Literal
  | .enum word => .string word
  | .list items => .list (Literal.itemsWordsQuoted items)
  | .object entries => .object (Literal.entriesWordsQuoted entries)
  | .string s => .string s
  | .number n => .number n
  | .boolean b => .boolean b
  | .null => .null

/-- The items of a list with strings for their words. -/
def Literal.itemsWordsQuoted : List Literal → List Literal
  | [] => []
  | item :: rest => Literal.wordsQuoted item :: Literal.itemsWordsQuoted rest

/-- The entries with strings for their words. -/
def Literal.entriesWordsQuoted : List (String × Literal) → List (String × Literal)
  | [] => []
  | (name, value) :: rest => (name, Literal.wordsQuoted value) :: Literal.entriesWordsQuoted rest

end

mutual

/-- The selection with strings for the words in its arguments. -/
def Selection.wordsQuoted : Selection → Selection
  | ⟨arguments, allScalars, items⟩ =>
    ⟨Literal.entriesWordsQuoted arguments, allScalars, Selection.itemsWordsQuoted items⟩

/-- The items with strings for the words in their arguments. -/
def Selection.itemsWordsQuoted : List (Key × Item) → List (Key × Item)
  | [] => []
  | (key, item) :: rest => (key, Item.wordsQuoted item) :: Selection.itemsWordsQuoted rest

/-- The item with strings for the words in its arguments. -/
def Item.wordsQuoted : Item → Item
  | .leaf => .leaf
  | .node s => .node (Selection.wordsQuoted s)

end

mutual

/-- A word and its string have one JSON form. -/
theorem Literal.toJson_wordsQuoted : ∀ l : Literal, l.wordsQuoted.toJson = l.toJson
  | .string _ | .number _ | .boolean _ | .null | .enum _ => rfl
  | .list items => congrArg Json.array (Literal.itemsToJson_wordsQuoted items)
  | .object entries => congrArg Json.object (Literal.entriesToJson_wordsQuoted entries)

theorem Literal.itemsToJson_wordsQuoted : ∀ items : List Literal,
    Literal.itemsToJson (Literal.itemsWordsQuoted items) = Literal.itemsToJson items
  | [] => rfl
  | item :: rest => by
      rw [Literal.itemsWordsQuoted, Literal.itemsToJson, Literal.itemsToJson,
        Literal.toJson_wordsQuoted item, Literal.itemsToJson_wordsQuoted rest]

theorem Literal.entriesToJson_wordsQuoted : ∀ entries : List (String × Literal),
    Literal.entriesToJson (Literal.entriesWordsQuoted entries) = Literal.entriesToJson entries
  | [] => rfl
  | (_, value) :: rest => by
      rw [Literal.entriesWordsQuoted, Literal.entriesToJson, Literal.entriesToJson,
        Literal.toJson_wordsQuoted value, Literal.entriesToJson_wordsQuoted rest]

end

theorem Literal.isEmpty_entriesWordsQuoted (entries : List (String × Literal)) :
    (entriesWordsQuoted entries).isEmpty = entries.isEmpty := by
  cases entries <;> rfl

mutual

/-- Strings for words do not change the JSON form. -/
theorem Selection.toJson_wordsQuoted : ∀ s : Selection, s.wordsQuoted.toJson = s.toJson
  | ⟨arguments, allScalars, items⟩ => by
      rw [Selection.wordsQuoted, Selection.toJson, Selection.toJson,
        Literal.isEmpty_entriesWordsQuoted, Literal.entriesToJson_wordsQuoted,
        Selection.itemsToJson_wordsQuoted items]

theorem Selection.itemsToJson_wordsQuoted : ∀ items : List (Key × Item),
    Selection.itemsToJson (Selection.itemsWordsQuoted items) = Selection.itemsToJson items
  | [] => rfl
  | (_, item) :: rest => by
      rw [Selection.itemsWordsQuoted, Selection.itemsToJson, Selection.itemsToJson,
        Item.toJson_wordsQuoted item, Selection.itemsToJson_wordsQuoted rest]

theorem Item.toJson_wordsQuoted : ∀ item : Item, item.wordsQuoted.toJson = item.toJson
  | .leaf => rfl
  | .node s => Selection.toJson_wordsQuoted s

end

/-! ## 2. Literals read back -/

mutual

/-- The literal with a JSON form. -/
def Literal.ofJson : Json → Literal
  | .null => .null
  | .boolean b => .boolean b
  | .number n => .number n
  | .string s => .string s
  | .array items => .list (Literal.itemsOfJson items)
  | .object entries => .object (Literal.entriesOfJson entries)

/-- The literals with the JSON forms in an array. -/
def Literal.itemsOfJson : List Json → List Literal
  | [] => []
  | item :: rest => Literal.ofJson item :: Literal.itemsOfJson rest

/-- The entries with the JSON forms in an object. -/
def Literal.entriesOfJson : List (String × Json) → List (String × Literal)
  | [] => []
  | (name, value) :: rest => (name, Literal.ofJson value) :: Literal.entriesOfJson rest

end

mutual

/-- A literal is read back, with strings for its words. -/
theorem Literal.ofJson_toJson : ∀ l : Literal, ofJson l.toJson = l.wordsQuoted
  | .string _ | .number _ | .boolean _ | .null | .enum _ => rfl
  | .list items => congrArg Literal.list (Literal.itemsOfJson_itemsToJson items)
  | .object entries => congrArg Literal.object (Literal.entriesOfJson_entriesToJson entries)

theorem Literal.itemsOfJson_itemsToJson : ∀ items : List Literal,
    Literal.itemsOfJson (Literal.itemsToJson items) = Literal.itemsWordsQuoted items
  | [] => rfl
  | item :: rest => by
      rw [Literal.itemsToJson, Literal.itemsOfJson, Literal.itemsWordsQuoted,
        Literal.ofJson_toJson item, Literal.itemsOfJson_itemsToJson rest]

theorem Literal.entriesOfJson_entriesToJson : ∀ entries : List (String × Literal),
    Literal.entriesOfJson (Literal.entriesToJson entries) = Literal.entriesWordsQuoted entries
  | [] => rfl
  | (_, value) :: rest => by
      rw [Literal.entriesToJson, Literal.entriesOfJson, Literal.entriesWordsQuoted,
        Literal.ofJson_toJson value, Literal.entriesOfJson_entriesToJson rest]

end

/-! ## 3. Keys read back -/

namespace Key

/-- The key that is no reserved one, from its JSON form. -/
def ofJsonKey (key : String) : Key :=
  match key.toList with
  | 'o' :: 'n' :: '_' :: type => .onType (String.ofList type)
  | _ => .field key

/-- A field has none of the keys that stand for something else. -/
def Unreserved : Key → Prop
  | .field name => ¬ "on_".toList <+: name.toList ∧ name ≠ argumentsKey ∧ name ≠ allScalarsKey
  | .onType _ => True

theorem ofJsonKey_jsonKey {key : Key} (h : key.Unreserved) : ofJsonKey key.jsonKey = key := by
  cases key with
  | field name =>
    unfold ofJsonKey
    split
    · rename_i type htype
      exact absurd ⟨type, htype.symm⟩ h.1
    · rfl
  | onType name =>
    rw [jsonKey, ofJsonKey, String.toList_append]
    exact congrArg Key.onType String.ofList_toList

theorem jsonKey_ne {key : Key} (h : key.Unreserved) :
    key.jsonKey ≠ argumentsKey ∧ key.jsonKey ≠ allScalarsKey := by
  cases key with
  | field name => exact h.2
  | onType name =>
    exact ⟨jsonKey_onType_ne (by decide) name, jsonKey_onType_ne (by decide) name⟩

end Key

/-! ## 4. Selections read back -/

mutual

/-- No field in a selection has a key that stands for something else. -/
def Selection.Unreserved : Selection → Prop
  | ⟨_, _, items⟩ => Selection.ItemsUnreserved items

/-- The keys of items, and what stands under them, stand for nothing else. -/
def Selection.ItemsUnreserved : List (Key × Item) → Prop
  | [] => True
  | (key, item) :: rest => (key.Unreserved ∧ Item.Unreserved item) ∧ Selection.ItemsUnreserved rest

/-- The keys in the selection of a node stand for nothing else. -/
def Item.Unreserved : Item → Prop
  | .leaf => True
  | .node s => Selection.Unreserved s

end

/-- The arguments of a selection, from the entries of its JSON form. -/
def Selection.argumentsOfJson (entries : List (String × Json)) : List (String × Literal) :=
  match Table.get? argumentsKey entries with
  | some (.object arguments) => Literal.entriesOfJson arguments
  | _ => []

mutual

/-- The item with a JSON form. -/
def Item.ofJson : Json → Item
  | .object entries => .node ⟨Selection.argumentsOfJson entries,
      Table.contains allScalarsKey entries, Selection.itemsOfJson entries⟩
  | _ => .leaf

/-- The items with the JSON forms in an object, under the keys that are not reserved. -/
def Selection.itemsOfJson : List (String × Json) → List (Key × Item)
  | [] => []
  | (key, value) :: rest =>
    if key = argumentsKey ∨ key = allScalarsKey then Selection.itemsOfJson rest
    else (Key.ofJsonKey key, Item.ofJson value) :: Selection.itemsOfJson rest

end

theorem Selection.keys_ne_of_unreserved : ∀ {items : List (Key × Item)},
    Selection.ItemsUnreserved items → argumentsKey ∉ Table.keys (Selection.itemsToJson items) ∧
      allScalarsKey ∉ Table.keys (Selection.itemsToJson items)
  | [], _ => by simp [Selection.itemsToJson]
  | (key, item) :: rest, ⟨⟨hkey, _⟩, hrest⟩ => by
      obtain ⟨harguments, hmark⟩ := Key.jsonKey_ne hkey
      have ih := Selection.keys_ne_of_unreserved hrest
      simp [Selection.itemsToJson, harguments.symm, hmark.symm, ih]

/-- The entries of the JSON form give back the arguments and the mark. -/
theorem Selection.reserved_ofJson (s : Selection) {entries : List (String × Json)}
    (h : argumentsKey ∉ Table.keys entries ∧ allScalarsKey ∉ Table.keys entries) :
    argumentsOfJson (s.reservedEntries ++ entries) = Literal.entriesWordsQuoted s.arguments ∧
      Table.contains allScalarsKey (s.reservedEntries ++ entries) = s.allScalars := by
  obtain ⟨harguments, hmark⟩ := h
  rw [← Table.get?_eq_none_iff] at harguments hmark
  have hne : allScalarsKey ≠ argumentsKey := by decide
  obtain ⟨arguments, allScalars, items⟩ := s
  -- Each of the two keys is looked up past the other one, which may be there or not.
  constructor
  · cases arguments <;> cases allScalars <;>
      simp [argumentsOfJson, reservedEntries, Table.get?_cons, harguments, hne,
        Literal.entriesOfJson_entriesToJson, Literal.entriesWordsQuoted]
  · cases arguments <;> cases allScalars <;>
      simp [Table.contains, reservedEntries, Table.get?_cons, hmark, hne.symm]

theorem Selection.itemsOfJson_reservedEntries (s : Selection) (entries : List (String × Json)) :
    itemsOfJson (s.reservedEntries ++ entries) = itemsOfJson entries := by
  obtain ⟨arguments, allScalars, items⟩ := s
  cases arguments <;> cases allScalars <;> simp [reservedEntries, itemsOfJson]

mutual

/-- A selection is read back, with strings for its words. -/
theorem Selection.ofJson_toJson : ∀ s : Selection, s.Unreserved →
    Item.ofJson s.toJson = .node s.wordsQuoted
  | ⟨arguments, allScalars, items⟩, h => by
      have hitems := Selection.itemsOfJson_itemsToJson items h
      obtain ⟨harguments, hmark⟩ := Selection.reserved_ofJson ⟨arguments, allScalars, items⟩
        (Selection.keys_ne_of_unreserved h)
      rw [Selection.toJson_eq, Item.ofJson, Selection.itemsOfJson_reservedEntries]
      simp only [Selection.items_mk, harguments, hmark, hitems]
      rfl

theorem Selection.itemsOfJson_itemsToJson : ∀ items : List (Key × Item),
    Selection.ItemsUnreserved items →
      Selection.itemsOfJson (Selection.itemsToJson items) = Selection.itemsWordsQuoted items
  | [], _ => rfl
  | (key, item) :: rest, ⟨⟨hkey, hitem⟩, hrest⟩ => by
      rw [Selection.itemsToJson, Selection.itemsOfJson,
        if_neg (not_or.mpr (Key.jsonKey_ne hkey)), Key.ofJsonKey_jsonKey hkey,
        Item.ofJson_toJson item hitem, Selection.itemsOfJson_itemsToJson rest hrest,
        Selection.itemsWordsQuoted]

theorem Item.ofJson_toJson : ∀ item : Item, item.Unreserved →
    Item.ofJson item.toJson = item.wordsQuoted
  | .leaf, _ => rfl
  | .node s, h => Selection.ofJson_toJson s h

end

/-- **Selections have one JSON form exactly if they are the same**, where words and strings count as
    one. -/
theorem Selection.toJson_inj {s t : Selection} (hs : s.Unreserved) (ht : t.Unreserved) :
    s.toJson = t.toJson ↔ s.wordsQuoted = t.wordsQuoted := by
  constructor
  · intro h
    have hnode := congrArg Item.ofJson h
    rw [s.ofJson_toJson hs, t.ofJson_toJson ht] at hnode
    exact Item.node.inj hnode
  · intro h
    rw [← s.toJson_wordsQuoted, h, t.toJson_wordsQuoted]

/-! ## 5. Compact texts -/

mutual

/-- A literal with integers for numbers has a JSON form with integers for numbers. -/
theorem Literal.integral_toJson : ∀ l : Literal, (∀ n ∈ l.numbers, n.IsInteger) →
    l.toJson.Integral
  | .string _, _ | .boolean _, _ | .null, _ | .enum _, _ => trivial
  | .number n, h => h n List.mem_cons_self
  | .list items, h => Literal.itemsIntegral_itemsToJson items h
  | .object entries, h => Literal.entriesIntegral_entriesToJson entries h

theorem Literal.itemsIntegral_itemsToJson : ∀ items : List Literal,
    (∀ n ∈ Literal.itemsNumbers items, n.IsInteger) →
      Json.ItemsIntegral (Literal.itemsToJson items)
  | [], _ => trivial
  | item :: rest, h => by
      obtain ⟨hitem, hrest⟩ := List.forall_mem_append.mp h
      exact ⟨Literal.integral_toJson item hitem, Literal.itemsIntegral_itemsToJson rest hrest⟩

theorem Literal.entriesIntegral_entriesToJson : ∀ entries : List (String × Literal),
    (∀ n ∈ Literal.entriesNumbers entries, n.IsInteger) →
      Json.EntriesIntegral (Literal.entriesToJson entries)
  | [], _ => trivial
  | (_, value) :: rest, h => by
      obtain ⟨hvalue, hrest⟩ := List.forall_mem_append.mp h
      exact ⟨Literal.integral_toJson value hvalue,
        Literal.entriesIntegral_entriesToJson rest hrest⟩

end

mutual

/-- A selection with integers for numbers has a JSON form with integers for numbers. -/
theorem Selection.integral_toJson : ∀ s : Selection, (∀ n ∈ s.numbers, n.IsInteger) →
    s.toJson.Integral
  | ⟨arguments, allScalars, items⟩, h => by
      obtain ⟨harguments, hitems⟩ := List.forall_mem_append.mp h
      have hbag : (Json.object (Literal.entriesToJson arguments)).Integral :=
        Literal.entriesIntegral_entriesToJson arguments harguments
      rw [Selection.toJson_eq, Json.Integral, Json.entriesIntegral_iff, List.forall_mem_append]
      exact ⟨Selection.forall_mem_reservedEntries hbag trivial,
        Selection.integral_itemsToJson items hitems⟩

theorem Selection.integral_itemsToJson : ∀ items : List (Key × Item),
    (∀ n ∈ Selection.itemsNumbers items, n.IsInteger) →
      ∀ e ∈ Selection.itemsToJson items, e.2.Integral
  | [], _ => List.forall_mem_nil _
  | (_, item) :: rest, h => by
      obtain ⟨hitem, hrest⟩ := List.forall_mem_append.mp h
      exact List.forall_mem_cons.mpr
        ⟨Item.integral_toJson item hitem, Selection.integral_itemsToJson rest hrest⟩

theorem Item.integral_toJson : ∀ item : Item, (∀ n ∈ item.numbers, n.IsInteger) →
    item.toJson.Integral
  | .leaf, _ => trivial
  | .node s, h => Selection.integral_toJson s h

end

/-- **The compact text of the JSON form determines the selection**, words and strings apart, where
    no field has a key that stands for something else and all numbers are integers. -/
theorem Selection.compact_toJson_inj {s t : Selection} (hs : s.Unreserved) (ht : t.Unreserved)
    (hs' : ∀ n ∈ s.numbers, n.IsInteger) (ht' : ∀ n ∈ t.numbers, n.IsInteger) :
    s.toJson.compact = t.toJson.compact ↔ s.wordsQuoted = t.wordsQuoted := by
  rw [Json.compact_inj (s.integral_toJson hs') (t.integral_toJson ht'), toJson_inj hs ht]

/-- Ten prices in a currency, and `"` as a name. -/
def Selection.prices (currency : Literal) : Selection :=
  ⟨[], false, [(.field "prices", .node
    ⟨[("first", .number (.integer 10)), ("currency", currency)], true,
      [(.onType "\"", .node .empty)]⟩)]⟩

/-- A word is not told from its string, but from another one. -/
theorem Selection.compact_toJson_prices :
    (prices (.enum "USD")).toJson.compact = (prices (.string "USD")).toJson.compact ∧
      (prices (.enum "USD")).toJson.compact ≠ (prices (.enum "EUR")).toJson.compact := by
  have hunreserved : ∀ currency, (prices currency).Unreserved := by
    intro currency
    simp [prices, Selection.empty, Unreserved, ItemsUnreserved, Item.Unreserved, Key.Unreserved,
      argumentsKey, allScalarsKey]
  have hnumbers : ∀ currency : Literal, currency.numbers = [] →
      ∀ n ∈ (prices currency).numbers, n.IsInteger := by
    intro currency h n hn
    simp [prices, Selection.empty, numbers, itemsNumbers, Item.numbers, Literal.entriesNumbers,
      Literal.numbers, h] at hn
    exact ⟨10, hn⟩
  constructor
  · exact (compact_toJson_inj (hunreserved _) (hunreserved _) (hnumbers _ rfl)
      (hnumbers _ rfl)).mpr rfl
  · intro h
    have hwords := (compact_toJson_inj (hunreserved _) (hunreserved _) (hnumbers _ rfl)
      (hnumbers _ rfl)).mp h
    simp [prices, wordsQuoted, itemsWordsQuoted, Item.wordsQuoted, Literal.entriesWordsQuoted,
      Literal.wordsQuoted] at hwords

end FieldSelection
