import FieldSelection.Json.Basic
import FieldSelection.Table

/-!
# Data of a document

What schema descriptions and configurations are read from, whichever notation they are written in.
The readings here say which data stand for a text, a natural number, a list, a table or a record:

* in a table a repeated key keeps its first place and its last value;
* a record is written as a table with known keys, none twice, or as a list of its fields in order,
  of which the last ones may be missing.
-/

namespace FieldSelection

/-- A datum. A scalar has the text that it stands for, if it stands for one, and its value if it is
    an integer. -/
inductive Datum where
  | scalar (text : Option String) (integer : Option Int)
  | list (items : List Datum)
  | table (entries : List (String × Datum))

namespace Datum

/-! ## 1. Readings -/

/-- The text that a scalar stands for. -/
def text? : Datum → Option String
  | .scalar text _ => text
  | _ => none

/-- An integer from 0 to below `bound`. -/
def natural? (bound : Nat) : Datum → Option Nat
  | .scalar _ (some n) => if 0 ≤ n && n < bound then some n.toNat else none
  | _ => none

/-- A list with items of one kind. -/
def listOf? {α : Type} (item : Datum → Option α) : Datum → Option (List α)
  | .list items => items.mapM item
  | _ => none

/-- A table with values of one kind. -/
def tableOf? {α : Type} (value : Datum → Option α) : Datum → Option (List (String × α))
  | .table entries => do
    let entries ← entries.mapM fun e => (value e.2).map (e.1, ·)
    return Table.ofEntries entries
  | _ => none

/-- The fields of a record by their names. -/
def record? (names : List String) : Datum → Option (String → Option Datum)
  | .table entries =>
    if (Table.keys entries).all names.contains && decide (Table.keys entries).Nodup then
      some fun name => Table.get? name entries
    else none
  | .list items =>
    if items.length ≤ names.length then some fun name => Table.get? name (names.zip items)
    else none
  | .scalar _ _ => none

/-- A field that may be missing: its reading, or else the value it then has. -/
def orElse {α : Type} (field : Option Datum) (reading : Datum → Option α) (missing : α) :
    Option α :=
  match field with
  | some d => reading d
  | none => some missing

/-! ## 2. JSON documents as data -/

mutual

/-- A JSON document as a datum: only its strings stand for texts. -/
def ofJson : Json → Datum
  | .string s => .scalar (some s) none
  | .number (.integer n) => .scalar none (some n)
  | .number (.double _) | .boolean _ | .null => .scalar none none
  | .array items => .list (ofJsonItems items)
  | .object entries => .table (ofJsonEntries entries)

/-- The items of an array as data. -/
def ofJsonItems : List Json → List Datum
  | [] => []
  | item :: rest => ofJson item :: ofJsonItems rest

/-- The entries of an object as data. -/
def ofJsonEntries : List (String × Json) → List (String × Datum)
  | [] => []
  | (key, value) :: rest => (key, ofJson value) :: ofJsonEntries rest

end

end Datum

end FieldSelection
