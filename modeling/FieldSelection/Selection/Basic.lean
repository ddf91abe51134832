import FieldSelection.Literal

/-!
# Selections

A selection says which fields of an object are requested. It is a tree:

* its items stand under keys: a field, or a type condition for the fields of one type only;
* an item is a leaf, the field alone, or a node, the field with a selection of its own;
* a selection carries the arguments of the field that it belongs to, and a mark that all scalar
  fields of its type are selected.

Keys and argument names keep the order of their arrival. `WellFormed` says that no key and no name
occurs twice, at any depth; every operation of the library keeps it.
-/

namespace FieldSelection

/-- What an item of a selection stands under. -/
inductive Key where
  /-- A field by its name. -/
  | field (name : String)
  /-- The selections for values of one type. -/
  | onType (name : String)
  deriving DecidableEq, Repr

namespace Key

/-- The name of the field or of the type. -/
def name : Key → String
  | .field name => name
  | .onType name => name

/-- The name of a field; none for a type condition. -/
def fieldName? : Key → Option String
  | .field name => some name
  | .onType _ => none

/-- The key in the JSON form of a selection. -/
def jsonKey : Key → String
  | .field name => name
  | .onType name => "on_" ++ name

/-- The key in the text of a selection. -/
def heading : Key → List Char
  | .field name => name.toList
  | .onType name => "... on ".toList ++ name.toList

/-- The order of keys: fields ahead of type conditions, then by name. -/
def le (a b : Key) : Bool :=
  match a, b with
  | .field m, .field n => decide (m ≤ n)
  | .field _, .onType _ => true
  | .onType _, .field _ => false
  | .onType m, .onType n => decide (m ≤ n)

end Key

mutual

/-- The fields that are requested, and the arguments of the field that they belong to. -/
inductive Selection where
  | mk (arguments : List (String × Literal)) (allScalars : Bool) (items : List (Key × Item))

/-- What stands under a key: the field alone, or the field with a selection of its own. -/
inductive Item where
  | leaf
  | node (selection : Selection)

end

namespace Selection

/-! ## 1. Parts -/

/-- The arguments of the field that the selection belongs to. -/
def arguments : Selection → List (String × Literal)
  | ⟨arguments, _, _⟩ => arguments

/-- Whether all scalar fields are selected. -/
def allScalars : Selection → Bool
  | ⟨_, allScalars, _⟩ => allScalars

/-- The items under their keys. -/
def items : Selection → List (Key × Item)
  | ⟨_, _, items⟩ => items

@[simp] theorem arguments_mk (a : List (String × Literal)) (w : Bool) (is : List (Key × Item)) :
    (mk a w is).arguments = a := rfl

@[simp] theorem allScalars_mk (a : List (String × Literal)) (w : Bool) (is : List (Key × Item)) :
    (mk a w is).allScalars = w := rfl

@[simp] theorem items_mk (a : List (String × Literal)) (w : Bool) (is : List (Key × Item)) :
    (mk a w is).items = is := rfl

/-- The selection of nothing. -/
def empty : Selection := ⟨[], false, []⟩

instance : Inhabited Selection := ⟨empty⟩

instance : Inhabited Item := ⟨.leaf⟩

/-- The selection of all scalar fields. -/
def scalars : Selection := ⟨[], true, []⟩

/-- Whether nothing is selected: no item and no mark. -/
def isEmpty (s : Selection) : Bool :=
  s.items.isEmpty && !s.allScalars

/-- The item under a key. -/
def get? (s : Selection) (key : Key) : Option Item :=
  Table.get? key s.items

/-- Whether a field is selected. -/
def hasField (s : Selection) (name : String) : Bool :=
  (s.get? (.field name)).isSome

/-- The value of an argument. -/
def argument? (s : Selection) (name : String) : Option Literal :=
  Table.get? name s.arguments

/-! ## 2. Changes -/

/-- The selection with other items. -/
def withItems (s : Selection) (items : List (Key × Item)) : Selection :=
  ⟨s.arguments, s.allScalars, items⟩

/-- Puts an item under a key, whatever stood there. -/
def put (s : Selection) (key : Key) (item : Item) : Selection :=
  s.withItems (Table.put key item s.items)

/-- Puts an item under a key unless one stands there. -/
def putNew (s : Selection) (key : Key) (item : Item) : Selection :=
  s.withItems (Table.putNew key item s.items)

/-- Gives an argument a value. -/
def setArgument (s : Selection) (name : String) (value : Literal) : Selection :=
  ⟨Table.put name value s.arguments, s.allScalars, s.items⟩

/-- Gives the arguments of a list their values, from first to last. -/
def setArguments (s : Selection) (arguments : List (String × Literal)) : Selection :=
  ⟨Table.putAll s.arguments arguments, s.allScalars, s.items⟩

/-- Gives an argument a value unless it has one. -/
def setNewArgument (s : Selection) (name : String) (value : Literal) : Selection :=
  ⟨Table.putNew name value s.arguments, s.allScalars, s.items⟩

/-- Sets or clears the mark for all scalar fields. -/
def setAllScalars (s : Selection) (allScalars : Bool) : Selection :=
  ⟨s.arguments, allScalars, s.items⟩

/-- Adds a field without a selection of its own. -/
def withLeaf (s : Selection) (name : String) : Selection :=
  s.put (.field name) .leaf

/-- Adds a field with a selection. -/
def withNode (s : Selection) (name : String) (node : Selection) : Selection :=
  s.put (.field name) (.node node)

@[simp] theorem items_withItems (s : Selection) (items : List (Key × Item)) :
    (s.withItems items).items = items := rfl

@[simp] theorem arguments_withItems (s : Selection) (items : List (Key × Item)) :
    (s.withItems items).arguments = s.arguments := rfl

@[simp] theorem allScalars_withItems (s : Selection) (items : List (Key × Item)) :
    (s.withItems items).allScalars = s.allScalars := rfl

/-- What was put under a key is found there. -/
theorem get?_put_self (s : Selection) (key : Key) (item : Item) :
    (s.put key item).get? key = some item :=
  Table.get?_put_self key item s.items

/-- Putting an item under a key leaves all other keys alone. -/
theorem get?_put_of_ne (s : Selection) {key other : Key} (h : other ≠ key) (item : Item) :
    (s.put key item).get? other = s.get? other :=
  Table.get?_put_of_ne h item s.items

/-- An argument has the value that it was given last. -/
theorem argument?_setArgument_self (s : Selection) (name : String) (value : Literal) :
    (s.setArgument name value).argument? name = some value :=
  Table.get?_put_self name value s.arguments

/-- Giving an argument a value leaves all other arguments alone. -/
theorem argument?_setArgument_of_ne (s : Selection) {name other : String} (h : other ≠ name)
    (value : Literal) : (s.setArgument name value).argument? other = s.argument? other :=
  Table.get?_put_of_ne h value s.arguments

/-- The selection reached along keys, each of them holding a node. -/
def descend? : List Key → Selection → Option Selection
  | [], s => some s
  | key :: keys, s =>
    match s.get? key with
    | some (.node child) => descend? keys child
    | _ => none

/-- Replaces the selection reached along keys. -/
def replaceAt (new : Selection) : List Key → Selection → Selection
  | [], _ => new
  | key :: keys, s =>
    match s.get? key with
    | some (.node child) => s.put key (.node (replaceAt new keys child))
    | _ => s

/-- What stands at the end of the keys is what was put there. -/
theorem descend?_replaceAt (new : Selection) : ∀ (keys : List Key) (s old : Selection),
    descend? keys s = some old → descend? keys (replaceAt new keys s) = some new
  | [], _, _, _ => rfl
  | key :: keys, s, old, h => by
      unfold descend? at h
      split at h
      · rename_i child hc
        simp only [replaceAt, hc, descend?, get?_put_self]
        exact descend?_replaceAt new keys child old h
      · cases h

/-! ## 3. Well-formed selections -/

end Selection

mutual

/-- No object in a literal has a name twice. -/
def Literal.WellFormed : Literal → Prop
  | .list items => Literal.ItemsWellFormed items
  | .object entries => (Table.keys entries).Nodup ∧ Literal.EntriesWellFormed entries
  | _ => True

/-- The literals of a list are well formed. -/
def Literal.ItemsWellFormed : List Literal → Prop
  | [] => True
  | item :: rest => Literal.WellFormed item ∧ Literal.ItemsWellFormed rest

/-- The literals of entries are well formed. -/
def Literal.EntriesWellFormed : List (String × Literal) → Prop
  | [] => True
  | (_, value) :: rest => Literal.WellFormed value ∧ Literal.EntriesWellFormed rest

end

mutual

/-- No key, argument name or name in an object occurs twice, at any depth. -/
def Selection.WellFormed : Selection → Prop
  | ⟨arguments, _, items⟩ =>
    ((Table.keys arguments).Nodup ∧ Literal.EntriesWellFormed arguments) ∧
      (Table.keys items).Nodup ∧ Selection.ItemsWellFormed items

/-- The selections under all keys are well formed. -/
def Selection.ItemsWellFormed : List (Key × Item) → Prop
  | [] => True
  | (_, item) :: rest => Item.WellFormed item ∧ Selection.ItemsWellFormed rest

/-- The selection of a node is well formed. -/
def Item.WellFormed : Item → Prop
  | .leaf => True
  | .node selection => Selection.WellFormed selection

end

theorem Selection.wellFormed_empty : Selection.empty.WellFormed := by
  simp [Selection.empty, Selection.WellFormed, Selection.ItemsWellFormed,
    Literal.EntriesWellFormed, Table.keys]

end FieldSelection
