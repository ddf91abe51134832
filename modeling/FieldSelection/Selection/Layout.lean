import FieldSelection.Selection.Basic

/-!
# The text of a selection

A selection is written as a braced set with a key on each line, two spaces a level. Only the first
line is not indented, so that the text can follow a field name. The mark for all scalar fields is
written `*`, after the keys.

The lines between the outer braces are laid out first (`lines`), each with its level; the text is
these lines, indented, between the braces (`braced`).
-/

namespace FieldSelection

/-! ## 1. Lines -/

/-- The blanks at the start of a line of a level. -/
def indentation (level : Nat) : List Char := List.replicate (2 * level) ' '

theorem notMem_indentation {c : Char} (h : c ≠ ' ') (level : Nat) : c ∉ indentation level := by
  simp [indentation, h]

/-- A line and how many levels it is indented. -/
structure Line where
  level : Nat
  content : List Char
  deriving DecidableEq, Repr

namespace Line

/-- The text of a line with the break after it. -/
def chars (l : Line) : List Char := indentation l.level ++ l.content ++ ['\n']

/-- Lines between braces, the closing brace at a level. -/
def braced (level : Nat) (ls : List Line) : List Char :=
  '{' :: '\n' :: ls.flatMap chars ++ indentation level ++ ['}']

end Line

/-! ## 2. Lines of a selection -/

/-- Arguments between parentheses; nothing if there are none. -/
def argumentsChars (arguments : List (String × Literal)) : List Char :=
  if arguments.isEmpty then []
  else '(' :: List.intercalate [',', ' '] (Literal.entriesChars arguments) ++ [')']

/-- The line that opens the selection under a key. -/
def openingLine (level : Nat) (key : Key) (arguments : List (String × Literal)) : Line :=
  ⟨level, key.heading ++ argumentsChars arguments ++ [' ', '{']⟩

/-- The line that closes a selection. -/
def closingLine (level : Nat) : Line := ⟨level, ['}']⟩

mutual

/-- The lines of a selection between its braces, at a level. -/
def Selection.lines (level : Nat) : Selection → List Line
  | ⟨_, allScalars, items⟩ =>
    Selection.itemsLines level items ++ if allScalars then [⟨level, ['*']⟩] else []

/-- The lines of items. -/
def Selection.itemsLines (level : Nat) : List (Key × Item) → List Line
  | [] => []
  | (key, item) :: rest => Item.lines level key item ++ Selection.itemsLines level rest

/-- The lines of the item under a key. -/
def Item.lines (level : Nat) (key : Key) : Item → List Line
  | .leaf => [⟨level, key.heading⟩]
  | .node selection =>
    openingLine level key selection.arguments ::
      Selection.lines (level + 1) selection ++ [closingLine level]

end

/-- The line `n` levels further in. -/
def Line.shift (n : Nat) (l : Line) : Line := ⟨l.level + n, l.content⟩

mutual

/-- The lines of a selection further in are its lines, each of them further in. -/
theorem Selection.lines_add (level n : Nat) : ∀ s : Selection,
    s.lines (level + n) = (s.lines level).map (Line.shift n)
  | ⟨_, allScalars, items⟩ => by
      rw [Selection.lines, Selection.lines, Selection.itemsLines_add level n items, List.map_append]
      cases allScalars <;> rfl

/-- The lines of items further in. -/
theorem Selection.itemsLines_add (level n : Nat) : ∀ items : List (Key × Item),
    Selection.itemsLines (level + n) items =
      (Selection.itemsLines level items).map (Line.shift n)
  | [] => by simp [Selection.itemsLines]
  | (key, item) :: rest => by
      rw [Selection.itemsLines, Selection.itemsLines, Item.lines_add level n key item,
        Selection.itemsLines_add level n rest, List.map_append]

/-- The lines of an item further in. -/
theorem Item.lines_add (level n : Nat) (key : Key) : ∀ item : Item,
    Item.lines (level + n) key item = (Item.lines level key item).map (Line.shift n)
  | .leaf => by simp [Item.lines, Line.shift]
  | .node selection => by
      rw [Item.lines, Item.lines, Nat.add_right_comm, Selection.lines_add (level + 1) n selection]
      simp [openingLine, closingLine, Line.shift]

end

/-! ## 3. Text -/

/-- The text of a selection at a level of indentation. -/
def Selection.indented (level : Nat) (s : Selection) : String :=
  String.ofList (Line.braced level (s.lines (level + 1)))

/-- The text of a selection. -/
def Selection.text (s : Selection) : String := s.indented 0

end FieldSelection
