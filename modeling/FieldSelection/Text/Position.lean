/-!
# Positions in a text

Offsets count bytes of the UTF-8 form from 0; lines and columns count from 1, and a column counts
bytes too. Only a line feed ends a line.
-/

namespace FieldSelection.Text

/-- The length of the UTF-8 form in bytes. -/
def bytes : List Char → Nat
  | [] => 0
  | c :: rest => c.utf8Size + bytes rest

@[simp] theorem bytes_nil : bytes [] = 0 := rfl

@[simp] theorem bytes_cons (c : Char) (cs : List Char) :
    bytes (c :: cs) = c.utf8Size + bytes cs := rfl

@[simp] theorem bytes_append (a b : List Char) : bytes (a ++ b) = bytes a + bytes b := by
  induction a with
  | nil => simp
  | cons c a ih => simp [ih, Nat.add_assoc]

/-- The text after its first `n` bytes, unless these end inside of a character or past the end. -/
def dropBytes? : (n : Nat) → List Char → Option (List Char)
  | 0, cs => some cs
  | _ + 1, [] => none
  | n + 1, c :: rest => if c.utf8Size ≤ n + 1 then dropBytes? (n + 1 - c.utf8Size) rest else none

theorem dropBytes?_append (a b : List Char) : dropBytes? (bytes a) (a ++ b) = some b := by
  induction a with
  | nil => cases b <;> simp [dropBytes?]
  | cons c a ih =>
    have hc := c.utf8Size_pos
    obtain ⟨n, hn⟩ : ∃ n, bytes (c :: a) = n + 1 := ⟨bytes (c :: a) - 1, by simp; omega⟩
    have hle : c.utf8Size ≤ n + 1 := by simp at hn; omega
    have hsub : n + 1 - c.utf8Size = bytes a := by simp at hn; omega
    rw [hn, List.cons_append, dropBytes?, if_pos hle, hsub, ih]

/-- A place in a text. -/
structure Position where
  offset : Nat
  line : Nat
  column : Nat
  deriving DecidableEq, Repr

/-- Line and column of the byte `offset` bytes ahead of the place `line`, `column`. -/
def lineColumn : (offset line column : Nat) → List Char → Nat × Nat
  | offset, line, column, [] => (line, column + offset)
  | offset, line, column, c :: rest =>
    if offset < c.utf8Size then (line, column + offset)
    else if c = '\n' then lineColumn (offset - c.utf8Size) (line + 1) 1 rest
    else lineColumn (offset - c.utf8Size) line (column + c.utf8Size) rest

/-- The place of a byte of the text; an offset past the end means the end. -/
def locate (source : List Char) (offset : Nat) : Position :=
  let offset := min offset (bytes source)
  let (line, column) := lineColumn offset 1 1 source
  { offset, line, column }

example : locate "a\nbé c".toList 6 = ⟨6, 2, 5⟩ := by decide

end FieldSelection.Text
