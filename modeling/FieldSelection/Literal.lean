import FieldSelection.Json.Basic
import FieldSelection.Table

/-!
# Argument literals

The values that a field's arguments take: strings, numbers, truth values, null, bare words (`USD` in
`price(currency: USD)`), lists and objects. Here stand

* the text of a literal in a request (`chars`);
* its JSON form, where a bare word becomes a string (`toJson`);
* equality that ignores the order of an object's entries (`same`).
-/

namespace FieldSelection

/-- A value of an argument. -/
inductive Literal where
  | string (s : String)
  | number (n : Numeral)
  | boolean (b : Bool)
  | null
  | enum (word : String)
  | list (items : List Literal)
  | object (entries : List (String × Literal))

namespace Literal

instance : Inhabited Literal := ⟨.null⟩

/-- A natural number as a literal. -/
def ofNat (n : Nat) : Literal := .number (.integer n)

/-- The literal of a bare word: `true`, `false` and `null` have a meaning of their own. -/
def ofWord (word : String) : Literal :=
  if word = "true" then .boolean true
  else if word = "false" then .boolean false
  else if word = "null" then .null
  else .enum word

/-! ## 1. Text -/

mutual

/-- The text of a literal. -/
def chars : Literal → List Char
  | .string s => Text.quoted s.toList
  | .number n => n.chars
  | .boolean b => Json.booleanChars b
  | .null => "null".toList
  | .enum word => word.toList
  | .list items => '[' :: List.intercalate [',', ' '] (itemsChars items) ++ [']']
  | .object entries => '{' :: List.intercalate [',', ' '] (entriesChars entries) ++ ['}']

/-- The texts of the items of a list. -/
def itemsChars : List Literal → List (List Char)
  | [] => []
  | item :: rest => chars item :: itemsChars rest

/-- The texts `name: literal` of entries. -/
def entriesChars : List (String × Literal) → List (List Char)
  | [] => []
  | (name, value) :: rest => (name.toList ++ ':' :: ' ' :: chars value) :: entriesChars rest

end

/-- The text of a literal. -/
def text (l : Literal) : String := String.ofList l.chars

/-! ## 2. JSON -/

mutual

/-- The JSON form of a literal. -/
def toJson : Literal → Json
  | .string s => .string s
  | .number n => .number n
  | .boolean b => .boolean b
  | .null => .null
  | .enum word => .string word
  | .list items => .array (itemsToJson items)
  | .object entries => .object (entriesToJson entries)

/-- The JSON forms of the items of a list. -/
def itemsToJson : List Literal → List Json
  | [] => []
  | item :: rest => toJson item :: itemsToJson rest

/-- The JSON forms of entries. -/
def entriesToJson : List (String × Literal) → List (String × Json)
  | [] => []
  | (name, value) :: rest => (name, toJson value) :: entriesToJson rest

end

/-! ## 3. Equality -/

mutual

/-- Whether two literals are equal, the order of an object's entries apart. -/
def same : Literal → Literal → Bool
  | .string s, .string t => s == t
  | .number m, .number n => m.same n
  | .boolean b, .boolean c => b == c
  | .null, .null => true
  | .enum v, .enum w => v == w
  | .list xs, .list ys => sameItems xs ys
  | .object es, .object fs => es.length == fs.length && entriesWithin es fs
  | _, _ => false

/-- Whether two lists hold the same literals in the same order. -/
def sameItems : List Literal → List Literal → Bool
  | [], [] => true
  | x :: xs, y :: ys => same x y && sameItems xs ys
  | _, _ => false

/-- Whether each entry has an equal one under its name in `fs`. -/
def entriesWithin : List (String × Literal) → List (String × Literal) → Bool
  | [], _ => true
  | (name, value) :: rest, fs =>
    (match Table.get? name fs with
      | some other => same value other
      | none => false) && entriesWithin rest fs

end

/-- Whether two tables of literals hold the same entries in any order. -/
def sameEntries (es fs : List (String × Literal)) : Bool :=
  es.length == fs.length && entriesWithin es fs

end Literal

end FieldSelection
