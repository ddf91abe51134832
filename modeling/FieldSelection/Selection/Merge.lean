import FieldSelection.Selection.Basic

/-!
# Merging selections

`merge` puts one selection into another: arguments of the second overwrite those of the first, the
marks for all scalar fields add up, and items under one key are merged in turn. A node wins over a
leaf, whichever comes first.
-/

namespace FieldSelection

mutual

/-- The first selection with the second merged into it. -/
def Selection.merge : Selection → Selection → Selection
  | ⟨a, w, is⟩, ⟨b, v, js⟩ => ⟨Table.putAll a b, w || v, Selection.mergeItems is js⟩

/-- Items with others merged into them, from first to last. -/
def Selection.mergeItems (is : List (Key × Item)) : List (Key × Item) → List (Key × Item)
  | [] => is
  | (key, item) :: rest =>
    Selection.mergeItems (Table.alter key item (fun old => Item.merge old item) is) rest

/-- An item with another merged into it. -/
def Item.merge : Item → Item → Item
  | old, .leaf => old
  | .leaf, .node s => .node s
  | .node r, .node s => .node (Selection.merge r s)

end

/-- Merges one item under its key into a selection. -/
def Selection.mergeItem (s : Selection) (key : Key) (item : Item) : Selection :=
  s.withItems (Table.alter key item (fun old => Item.merge old item) s.items)

namespace Selection

@[simp] theorem mergeItems_nil (is : List (Key × Item)) : mergeItems is [] = is := by
  rw [mergeItems]

theorem mergeItems_cons (is : List (Key × Item)) (key : Key) (item : Item)
    (rest : List (Key × Item)) :
    mergeItems is ((key, item) :: rest) =
      mergeItems (Table.alter key item (fun old => Item.merge old item) is) rest := by
  rw [mergeItems]

/-- Merging the selection of nothing changes nothing. -/
theorem merge_empty (s : Selection) : s.merge empty = s := by
  cases s
  simp [empty, merge, Table.putAll]

/-- Merging item by item is merging the items as a whole. -/
theorem foldl_mergeItem (s : Selection) (js : List (Key × Item)) :
    js.foldl (fun s e => s.mergeItem e.1 e.2) s = s.withItems (mergeItems s.items js) := by
  induction js generalizing s with
  | nil => cases s; simp [withItems]
  | cons e js ih =>
    obtain ⟨key, item⟩ := e
    rw [List.foldl_cons, ih]
    cases s
    simp [mergeItem, withItems, mergeItems_cons]

end Selection

end FieldSelection
