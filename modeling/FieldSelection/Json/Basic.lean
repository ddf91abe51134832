import FieldSelection.Number.Numeral
import FieldSelection.Text.Quoted

/-!
# JSON documents and their text

A document keeps the entries of an object in order, and keeps a key that occurs twice. It is written
in two forms: `compact` without any blank, and `pretty` with one item a line and two spaces a level.
-/

namespace FieldSelection

/-- A JSON document. -/
inductive Json where
  | null
  | boolean (b : Bool)
  | number (n : Numeral)
  | string (s : String)
  | array (items : List Json)
  | object (entries : List (String × Json))

namespace Json

instance : Inhabited Json := ⟨.null⟩

/-- A natural number as a document. -/
def ofNat (n : Nat) : Json := .number (.integer n)

/-- The value of the first entry with a key, in an object. -/
def field? (key : String) : Json → Option Json
  | .object entries => entries.lookup key
  | _ => none

/-- `true` or `false`. -/
def booleanChars (b : Bool) : List Char :=
  if b then "true".toList else "false".toList

/-! ## 1. The compact form -/

mutual

/-- A document without blanks. -/
def compactChars : Json → List Char
  | .null => "null".toList
  | .boolean b => booleanChars b
  | .number n => n.chars
  | .string s => Text.quoted s.toList
  | .array items => '[' :: List.intercalate [','] (compactItems items) ++ [']']
  | .object entries => '{' :: List.intercalate [','] (compactEntries entries) ++ ['}']

/-- The items of an array. -/
def compactItems : List Json → List (List Char)
  | [] => []
  | item :: rest => compactChars item :: compactItems rest

/-- The entries of an object: key, colon, value. -/
def compactEntries : List (String × Json) → List (List Char)
  | [] => []
  | (key, value) :: rest =>
    (Text.quoted key.toList ++ ':' :: compactChars value) :: compactEntries rest

end

/-- The text of a document without blanks. -/
def compact (j : Json) : String := String.ofList j.compactChars

/-! ## 2. The indented form -/

/-- The start of a line at a level. -/
def lineStart (level : Nat) : List Char := '\n' :: List.replicate (2 * level) ' '

/-- Items between brackets: a line each, one level deeper; nothing at all for no items. -/
def bracketed (opening closing : Char) (level : Nat) (items : List (List Char)) : List Char :=
  if items.isEmpty then [opening, closing]
  else
    opening :: lineStart (level + 1) ++
      List.intercalate (',' :: lineStart (level + 1)) items ++ lineStart level ++ [closing]

mutual

/-- A document at a level, a line for each item. -/
def prettyChars (level : Nat) : Json → List Char
  | .array items => bracketed '[' ']' level (prettyItems (level + 1) items)
  | .object entries => bracketed '{' '}' level (prettyEntries (level + 1) entries)
  | .null => "null".toList
  | .boolean b => booleanChars b
  | .number n => n.chars
  | .string s => Text.quoted s.toList

/-- The items of an array at a level. -/
def prettyItems (level : Nat) : List Json → List (List Char)
  | [] => []
  | item :: rest => prettyChars level item :: prettyItems level rest

/-- The entries of an object at a level: key, colon, blank, value. -/
def prettyEntries (level : Nat) : List (String × Json) → List (List Char)
  | [] => []
  | (key, value) :: rest =>
    (Text.quoted key.toList ++ ':' :: ' ' :: prettyChars level value) :: prettyEntries level rest

end

/-- The text of a document with one item a line. -/
def pretty (j : Json) : String := String.ofList (j.prettyChars 0)

end Json

end FieldSelection
