import FieldSelection.Selection.Basic

/-!
# Equality of selections

Two selections are the same if they select the same, whatever the order of keys and of arguments.
-/

namespace FieldSelection

mutual

/-- Whether two selections are equal, the order of keys and arguments apart. -/
def Selection.same : Selection → Selection → Bool
  | ⟨a, w, is⟩, ⟨b, v, js⟩ =>
    (is.length == js.length && Selection.itemsWithin is js) && Literal.sameEntries a b && w == v

/-- Whether each item has an equal one under its key in `js`. -/
def Selection.itemsWithin : List (Key × Item) → List (Key × Item) → Bool
  | [], _ => true
  | (key, item) :: rest, js =>
    (match Table.get? key js with
      | some other => Item.same item other
      | none => false) && Selection.itemsWithin rest js

/-- Whether two items are equal: both leaves, or nodes with equal selections. -/
def Item.same : Item → Item → Bool
  | .leaf, .leaf => true
  | .node r, .node s => Selection.same r s
  | _, _ => false

end

end FieldSelection
