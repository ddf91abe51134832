import FieldSelection.Selection.Basic

/-!
# The JSON form of a selection

A selection becomes an object: `__args` with the arguments if there are any, `__scalars` if all
scalar fields are selected, then the keys in order. A leaf is `true`; a type condition on `T` stands
under `on_T`, so two keys can have one name, and both are written.
-/

namespace FieldSelection

/-- The key of the arguments in the JSON form. -/
def argumentsKey : String := "__args"

/-- The key of the mark for all scalar fields in the JSON form. -/
def allScalarsKey : String := "__scalars"

mutual

/-- The JSON form of a selection. -/
def Selection.toJson : Selection → Json
  | ⟨arguments, allScalars, items⟩ =>
    .object
      ((if arguments.isEmpty then []
        else [(argumentsKey, .object (Literal.entriesToJson arguments))]) ++
      (if allScalars then [(allScalarsKey, .boolean true)] else []) ++
      Selection.itemsToJson items)

/-- The JSON forms of items under their keys. -/
def Selection.itemsToJson : List (Key × Item) → List (String × Json)
  | [] => []
  | (key, item) :: rest => (key.jsonKey, Item.toJson item) :: Selection.itemsToJson rest

/-- The JSON form of an item. -/
def Item.toJson : Item → Json
  | .leaf => .boolean true
  | .node selection => Selection.toJson selection

end

end FieldSelection
