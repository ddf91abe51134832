import FieldSelection.Proofs.Grammar.Reading
import FieldSelection.Proofs.Selection.Merging
import FieldSelection.Proofs.Selection.Printing

/-!
# Selections as phrases

A selection without marks for all scalar fields, whose type conditions all hold a node without
arguments, is `Plain`: these are the selections that the grammar has words for. The phrases of a
selection (`phrases`) are a derivation of its text:

* they derive the tokens of the text (`scan_eq`), if the numbers in it read back;
* they are as deep as the selection (`depth_eq`);
* they mean the selection, its own arguments apart (`mergeAll_phrases`).
-/

namespace FieldSelection

open Grammar

/-! ## 1. Plain selections -/

mutual

/-- Nothing carries the mark for all scalar fields, and a type condition holds a node without
    arguments. -/
def Selection.Plain : Selection → Prop
  | ⟨_, allScalars, items⟩ => allScalars = false ∧ Selection.ItemsPlain items

/-- The items are plain under their keys. -/
def Selection.ItemsPlain : List (Key × Item) → Prop
  | [] => True
  | (key, item) :: rest => Item.Plain key item ∧ Selection.ItemsPlain rest

/-- The item is plain under its key. -/
def Item.Plain : Key → Item → Prop
  | .field _, .leaf => True
  | .field _, .node selection => Selection.Plain selection
  | .onType _, .leaf => False
  | .onType _, .node selection => selection.arguments = [] ∧ Selection.Plain selection

end

/-! ## 2. Depth -/

mutual

/-- How many lists and objects of a literal are open at once. -/
def Literal.depth : Literal → Nat
  | .list items => Literal.itemsDepth items + 1
  | .object entries => Literal.entriesDepth entries + 1
  | _ => 0

/-- The greatest depth of an item. -/
def Literal.itemsDepth : List Literal → Nat
  | [] => 0
  | item :: rest => max (Literal.depth item) (Literal.itemsDepth rest)

/-- The greatest depth of the value of an entry. -/
def Literal.entriesDepth : List (String × Literal) → Nat
  | [] => 0
  | (_, value) :: rest => max (Literal.depth value) (Literal.entriesDepth rest)

end

mutual

/-- How many sets, lists and objects of a selection are open at once, its own arguments apart. -/
def Selection.depth : Selection → Nat
  | ⟨_, _, items⟩ => Selection.itemsDepth items + 1

/-- The greatest depth of an item. -/
def Selection.itemsDepth : List (Key × Item) → Nat
  | [] => 0
  | (_, item) :: rest => max (Item.depth item) (Selection.itemsDepth rest)

/-- The depth of a node and of its arguments. -/
def Item.depth : Item → Nat
  | .leaf => 0
  | .node selection => max (Literal.entriesDepth selection.arguments) (Selection.depth selection)

end

/-! ## 3. Numbers -/

mutual

/-- The numbers in a literal. -/
def Literal.numbers : Literal → List Numeral
  | .number n => [n]
  | .list items => Literal.itemsNumbers items
  | .object entries => Literal.entriesNumbers entries
  | _ => []

/-- The numbers in the items of a list. -/
def Literal.itemsNumbers : List Literal → List Numeral
  | [] => []
  | item :: rest => Literal.numbers item ++ Literal.itemsNumbers rest

/-- The numbers in entries. -/
def Literal.entriesNumbers : List (String × Literal) → List Numeral
  | [] => []
  | (_, value) :: rest => Literal.numbers value ++ Literal.entriesNumbers rest

end

mutual

/-- The numbers in the arguments of a selection, at any depth. -/
def Selection.numbers : Selection → List Numeral
  | ⟨arguments, _, items⟩ => Literal.entriesNumbers arguments ++ Selection.itemsNumbers items

/-- The numbers in items. -/
def Selection.itemsNumbers : List (Key × Item) → List Numeral
  | [] => []
  | (_, item) :: rest => Item.numbers item ++ Selection.itemsNumbers rest

/-- The numbers in the selection of a node. -/
def Item.numbers : Item → List Numeral
  | .leaf => []
  | .node selection => Selection.numbers selection

end

/-! ## 4. Values of literals -/

mutual

/-- The value that a literal is written as. -/
def Literal.value : Literal → Value
  | .string s => .string s
  | .number n => .number n
  | .boolean b => .word (if b then "true" else "false")
  | .null => .word "null"
  | .enum word => .word word
  | .list items => .list (Literal.itemsValues items)
  | .object entries => .object (Literal.entriesValues entries)

/-- The values of the items of a list. -/
def Literal.itemsValues : List Literal → List Value
  | [] => []
  | item :: rest => Literal.value item :: Literal.itemsValues rest

/-- The values of entries. -/
def Literal.entriesValues : List (String × Literal) → List (String × Value)
  | [] => []
  | (name, value) :: rest => (name, Literal.value value) :: Literal.entriesValues rest

end

theorem Literal.ofWord_enum {word : String}
    (h : word ≠ "true" ∧ word ≠ "false" ∧ word ≠ "null") : ofWord word = .enum word := by
  rw [ofWord, if_neg h.1, if_neg h.2.1, if_neg h.2.2]

theorem andThen_some (ks ls : List Token.Kind) : andThen (some ks) (some ls) = some (ks ++ ls) :=
  rfl

mutual

/-- The value of a literal derives the tokens of its text. -/
theorem Literal.scan_eq : ∀ l : Literal, (∀ n ∈ l.numbers, n.Rereads) →
    l.scan = some l.value.kinds
  | .string _, _ | .boolean _, _ | .null, _ | .enum _, _ => rfl
  | .number n, h => h n List.mem_cons_self
  | .list items, h => by
      rw [scan, Literal.itemsScan_eq items h]
      rfl
  | .object entries, h => by
      rw [scan, Literal.entriesScan_eq entries h]
      rfl

/-- The values of the items of a list derive the tokens of their texts. -/
theorem Literal.itemsScan_eq : ∀ items : List Literal,
    (∀ n ∈ Literal.itemsNumbers items, n.Rereads) →
      Literal.itemsScan items = some (Value.itemsKinds (Literal.itemsValues items))
  | [], _ => rfl
  | item :: rest, h => by
      rw [Literal.itemsNumbers, List.forall_mem_append] at h
      rw [Literal.itemsScan, Literal.scan_eq item h.1, Literal.itemsScan_eq rest h.2]
      rfl

/-- The values of entries derive the tokens of their texts. -/
theorem Literal.entriesScan_eq : ∀ entries : List (String × Literal),
    (∀ n ∈ Literal.entriesNumbers entries, n.Rereads) →
      Literal.entriesScan entries = some (Value.entriesKinds (Literal.entriesValues entries))
  | [], _ => rfl
  | (name, value) :: rest, h => by
      rw [Literal.entriesNumbers, List.forall_mem_append] at h
      rw [Literal.entriesScan, Literal.scan_eq value h.1, Literal.entriesScan_eq rest h.2]
      rfl

end

mutual

/-- The value of a literal is as deep as the literal. -/
theorem Literal.depth_value : ∀ l : Literal, l.value.depth = l.depth
  | .string _ | .number _ | .boolean _ | .null | .enum _ => rfl
  | .list items => congrArg (· + 1) (Literal.itemsDepth_itemsValues items)
  | .object entries => congrArg (· + 1) (Literal.entriesDepth_entriesValues entries)

/-- The values of the items of a list are as deep as the items. -/
theorem Literal.itemsDepth_itemsValues : ∀ items : List Literal,
    Value.itemsDepth (Literal.itemsValues items) = Literal.itemsDepth items
  | [] => rfl
  | item :: rest => by
      rw [Literal.itemsValues, Value.itemsDepth, Literal.itemsDepth, Literal.depth_value item,
        Literal.itemsDepth_itemsValues rest]

/-- The values of entries are as deep as the entries. -/
theorem Literal.entriesDepth_entriesValues : ∀ entries : List (String × Literal),
    Value.entriesDepth (Literal.entriesValues entries) = Literal.entriesDepth entries
  | [] => rfl
  | (name, value) :: rest => by
      rw [Literal.entriesValues, Value.entriesDepth, Literal.entriesDepth,
        Literal.depth_value value, Literal.entriesDepth_entriesValues rest]

end

mutual

/-- The value of a literal means the literal. -/
theorem Literal.literal_value : ∀ l : Literal, l.WellFormed → l.Spelled → l.value.literal = l
  | .string _, _, _ | .number _, _, _ | .null, _, _ => rfl
  | .boolean b, _, _ => by cases b <;> rfl
  | .enum word, _, h => Literal.ofWord_enum h.2
  | .list items, hw, h => congrArg Literal.list (Literal.literals_itemsValues items hw h)
  | .object entries, hw, h => by
      rw [value, Value.literal, Literal.entries_entriesValues entries hw.2 h,
        Table.ofEntries_eq_self hw.1]

/-- The values of the items of a list mean the items. -/
theorem Literal.literals_itemsValues : ∀ items : List Literal, Literal.ItemsWellFormed items →
    Literal.ItemsSpelled items → Value.literals (Literal.itemsValues items) = items
  | [], _, _ => rfl
  | item :: rest, hw, h => by
      rw [Literal.itemsValues, Value.literals, Literal.literal_value item hw.1 h.1,
        Literal.literals_itemsValues rest hw.2 h.2]

/-- The values of entries mean the entries. -/
theorem Literal.entries_entriesValues : ∀ entries : List (String × Literal),
    Literal.EntriesWellFormed entries → Literal.EntriesSpelled entries →
      Value.entries (Literal.entriesValues entries) = entries
  | [], _, _ => rfl
  | (name, value) :: rest, hw, h => by
      rw [Literal.entriesValues, Value.entries, Literal.literal_value value hw.1 h.2.1,
        Literal.entries_entriesValues rest hw.2 h.2.2]

end

/-! ## 5. Phrases of selections -/

/-- The arguments of a field as a derivation; none where no parentheses are written. -/
def argumentsValues? (arguments : List (String × Literal)) : Option (List (String × Value)) :=
  if arguments.isEmpty then none else some (Literal.entriesValues arguments)

mutual

/-- The phrases that a selection is written as. -/
def Selection.phrases : Selection → List Phrase
  | ⟨_, _, items⟩ => Selection.itemsPhrases items

/-- The phrases of items. -/
def Selection.itemsPhrases : List (Key × Item) → List Phrase
  | [] => []
  | (key, item) :: rest => Item.phrase key item :: Selection.itemsPhrases rest

/-- The phrase of the item under a key. A type condition needs a set, which a leaf does not have. -/
def Item.phrase : Key → Item → Phrase
  | .field name, .leaf => .leaf none name
  | .field name, .node selection =>
    .nested none name (argumentsValues? selection.arguments) (Selection.phrases selection)
  | .onType name, .leaf => .fragment name []
  | .onType name, .node selection => .fragment name (Selection.phrases selection)

end

theorem argumentsScan_eq {arguments : List (String × Literal)}
    (h : ∀ n ∈ Literal.entriesNumbers arguments, n.Rereads) :
    argumentsScan arguments = some (argumentsKinds (argumentsValues? arguments)) := by
  unfold argumentsScan argumentsValues?
  split
  · rfl
  · rw [Literal.entriesScan_eq arguments h]
    rfl

mutual

/-- The phrases of a plain selection derive the tokens of its text. -/
theorem Selection.scan_eq : ∀ s : Selection, s.Plain → (∀ n ∈ s.numbers, n.Rereads) →
    s.scan = some (Phrase.setKinds s.phrases)
  | ⟨arguments, _, items⟩, ⟨rfl, h⟩, hn => by
      rw [Selection.numbers, List.forall_mem_append] at hn
      rw [Selection.scan, Selection.itemsScan_eq items h hn.2]
      exact andThen_some_nil _

/-- The phrases of plain items derive the tokens of their text. -/
theorem Selection.itemsScan_eq : ∀ items : List (Key × Item), Selection.ItemsPlain items →
    (∀ n ∈ Selection.itemsNumbers items, n.Rereads) →
      Selection.itemsScan items = some (Phrase.setKinds (Selection.itemsPhrases items))
  | [], _, _ => rfl
  | (key, item) :: rest, h, hn => by
      rw [Selection.itemsNumbers, List.forall_mem_append] at hn
      rw [Selection.itemsScan, Item.scan_eq key item h.1 hn.1,
        Selection.itemsScan_eq rest h.2 hn.2]
      rfl

/-- The phrase of a plain item derives the tokens of its text. -/
theorem Item.scan_eq : ∀ (key : Key) (item : Item), item.Plain key →
    (∀ n ∈ item.numbers, n.Rereads) → item.scan key = some (Item.phrase key item).kinds
  | .field name, .leaf, _, _ => rfl
  | .field name, .node ⟨arguments, w, items⟩, h, hn => by
      have hset := Selection.scan_eq ⟨arguments, w, items⟩ h hn
      rw [Item.numbers, Selection.numbers, List.forall_mem_append] at hn
      rw [Item.scan, hset, Selection.arguments_mk, argumentsScan_eq hn.1]
      simp [enclosed, andThen_some, Key.scan, Item.phrase, Phrase.kinds, headKinds]
  | .onType name, .node ⟨arguments, w, items⟩, ⟨hnone, h⟩, hn => by
      rw [Item.scan, Selection.scan_eq ⟨arguments, w, items⟩ h hn, hnone]
      rfl

end

mutual

/-- The phrases of a plain selection are as deep as the selection. -/
theorem Selection.depth_eq : ∀ s : Selection, s.Plain →
    Phrase.setDepth s.phrases + 1 = s.depth
  | ⟨_, _, items⟩, h => congrArg (· + 1) (Selection.itemsDepth_eq items h.2)

/-- The phrases of plain items are as deep as the items. -/
theorem Selection.itemsDepth_eq : ∀ items : List (Key × Item), Selection.ItemsPlain items →
    Phrase.setDepth (Selection.itemsPhrases items) = Selection.itemsDepth items
  | [], _ => rfl
  | (key, item) :: rest, h => by
      rw [Selection.itemsPhrases, Phrase.setDepth, Selection.itemsDepth,
        Item.depth_eq key item h.1, Selection.itemsDepth_eq rest h.2]

/-- The phrase of a plain item is as deep as the item. -/
theorem Item.depth_eq : ∀ (key : Key) (item : Item), item.Plain key →
    (Item.phrase key item).depth = item.depth
  | .field _, .leaf, _ => rfl
  | .field _, .node s, h => by
      have harguments :
          argumentsDepth (argumentsValues? s.arguments) = Literal.entriesDepth s.arguments := by
        unfold argumentsValues?
        split
        · rename_i hempty
          rw [List.isEmpty_iff.mp hempty]
          rfl
        · exact Literal.entriesDepth_entriesValues s.arguments
      rw [Item.phrase, Phrase.depth, Item.depth, Selection.depth_eq s h, harguments]
  | .onType _, .node s, ⟨hnone, h⟩ => by
      rw [Item.phrase, Phrase.depth, Item.depth, Selection.depth_eq s h, hnone]
      exact (Nat.zero_max _).symm

end

/-! ## 6. What the phrases mean -/

/-- The selection without the arguments of its own field. -/
def Selection.withoutArguments (s : Selection) : Selection :=
  ⟨[], s.allScalars, s.items⟩

theorem Selection.setArguments_withoutArguments {s : Selection}
    (h : (Table.keys s.arguments).Nodup) : s.withoutArguments.setArguments s.arguments = s := by
  obtain ⟨arguments, w, items⟩ := s
  exact congrArg (Selection.mk · w items) (Table.ofEntries_eq_self h)

mutual

/-- The phrases of a plain selection mean the selection, its own arguments apart. -/
theorem Selection.mergeAll_phrases : ∀ s : Selection, s.WellFormed → s.Spelled → s.Plain →
    Selection.empty.mergeAll (Phrase.entries s.phrases) = s.withoutArguments
  | ⟨arguments, _, items⟩, hw, hs, ⟨rfl, h⟩ => by
      rw [Selection.phrases, Selection.entries_itemsPhrases items hw.2.2 hs.2 h,
        Selection.mergeAll_eq]
      exact congrArg (Selection.mk [] false) (Selection.mergeItems_eq_append hw.2.1)

/-- The phrases of plain items mean the items. -/
theorem Selection.entries_itemsPhrases : ∀ items : List (Key × Item),
    Selection.ItemsWellFormed items → Selection.ItemsSpelled items → Selection.ItemsPlain items →
      Phrase.entries (Selection.itemsPhrases items) = items
  | [], _, _, _ => rfl
  | (key, item) :: rest, hw, hs, h => by
      rw [Selection.itemsPhrases, Phrase.entries, Item.entry_phrase key item hw.1 hs.2.1 h.1,
        Selection.entries_itemsPhrases rest hw.2 hs.2.2 h.2]

/-- The phrase of a plain item means the item. -/
theorem Item.entry_phrase : ∀ (key : Key) (item : Item), item.WellFormed → item.Spelled →
    item.Plain key → (Item.phrase key item).entry = (key, item)
  | .field _, .leaf, _, _, _ => rfl
  | .field name, .node ⟨arguments, w, items⟩, hw, hs, h => by
      have hset := Selection.mergeAll_phrases ⟨arguments, w, items⟩ hw hs h
      rw [Item.phrase, Selection.arguments_mk, argumentsValues?]
      split
      · rename_i hempty
        rw [Phrase.entry, hset, List.isEmpty_iff.mp hempty]
        rfl
      · have hself := Selection.setArguments_withoutArguments
          (s := ⟨arguments, w, items⟩) hw.1.1
        rw [Selection.arguments_mk] at hself
        rw [Phrase.entry, hset, Literal.entries_entriesValues arguments hw.1.2 hs.1, hself]
  | .onType name, .node ⟨arguments, w, items⟩, hw, hs, ⟨hnone, h⟩ => by
      rw [Selection.arguments_mk] at hnone
      rw [Item.phrase, Phrase.entry, Selection.mergeAll_phrases ⟨arguments, w, items⟩ hw hs h,
        hnone]
      rfl

end

end FieldSelection
