import FieldSelection.Schema.Basic
import FieldSelection.Selection.Layout

/-!
# The text of a request

Against a schema the text of a selection holds no mark for all scalar fields: the scalar fields of
the type stand in its place, ahead of the keys. Left out are scalars that are selected anyway and
scalars that need arguments. Where the type is not known, the mark stands for nothing.

The type of a nested selection is the target of its field, or the type of its type condition.
-/

namespace FieldSelection

/-- The scalar fields that a mark stands for, in a selection with the given items. -/
def TypeDescriptor.markedScalars (d : TypeDescriptor) (items : List (Key × Item)) : List String :=
  d.scalars.filter fun name =>
    !Table.contains (.field name) items && !(d.field? name).any FieldDescriptor.needsArguments

/-- The type of the selection under a key, seen from a type that may not be known. -/
def Key.target? (d? : Option TypeDescriptor) : Key → Option String
  | .field name => (d?.bind fun d => d.field? name).map FieldDescriptor.type
  | .onType name => some name

/-- A line for each name. -/
def nameLines (level : Nat) (names : List String) : List Line :=
  names.map fun name => ⟨level, name.toList⟩

mutual

/-- The lines between the braces of a selection of a type that may not be known. -/
def Selection.requestLines (schema : Schema) (type? : Option String) (level : Nat) :
    Selection → List Line
  | ⟨_, allScalars, items⟩ =>
    let d? := type?.bind schema.descriptor?
    (match allScalars, d? with
      | true, some d => nameLines level (d.markedScalars items)
      | _, _ => []) ++
    Selection.requestItemsLines schema d? level items

/-- The lines of items. -/
def Selection.requestItemsLines (schema : Schema) (d? : Option TypeDescriptor) (level : Nat) :
    List (Key × Item) → List Line
  | [] => []
  | (key, item) :: rest =>
    Item.requestLines schema (key.target? d?) level key item ++
      Selection.requestItemsLines schema d? level rest

/-- The lines of the item under a key, its selection being of a type that may not be known. -/
def Item.requestLines (schema : Schema) (type? : Option String) (level : Nat) (key : Key) :
    Item → List Line
  | .leaf => [⟨level, key.heading⟩]
  | .node selection =>
    openingLine level key selection.arguments ::
      Selection.requestLines schema type? (level + 1) selection ++ [closingLine level]

end

/-- The text of a selection in a request for a value of a type. -/
def Selection.requestText (schema : Schema) (type : String) (s : Selection) : String :=
  String.ofList (Line.braced 0 (s.requestLines schema (some type) 1))

end FieldSelection
