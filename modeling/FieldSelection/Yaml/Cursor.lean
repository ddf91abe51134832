import FieldSelection.Yaml.Failure

/-!
# Walking through a YAML text

A cursor is what is left of the text, with the line and the column that its first character stands
at. The end of the text counts as a NUL character, and a NUL character as the end of the text.
-/

namespace FieldSelection.Yaml

/-! ## 1. Classes of characters -/

/-- The character that stands for the end of the text. -/
def endMark : Char := '\x00'

/-- Whether a character ends a line. -/
def isBreak (c : Char) : Bool := c == '\n' || c == '\r'

/-- Whether a character is a space or a tab. -/
def isBlank (c : Char) : Bool := c == ' ' || c == '\t'

/-- Whether a character ends a line or the text. -/
def isBreakOrEnd (c : Char) : Bool := isBreak c || c == endMark

/-- Whether a character is blank, or ends a line or the text. -/
def isGap (c : Char) : Bool := isBlank c || isBreakOrEnd c

/-- Whether a character may stand in the name of an anchor, a directive or a tag. -/
def isWordChar (c : Char) : Bool := c.isAlphanum || c == '_' || c == '-'

/-- Whether a character delimits flow collections. -/
def isFlowMark (c : Char) : Bool :=
  c == ',' || c == '[' || c == ']' || c == '{' || c == '}'

/-! ## 2. Cursors -/

/-- What is left of a text, and where that stands. -/
structure Cursor where
  chars : List Char
  index : Nat
  line : Nat
  column : Nat
  deriving DecidableEq, Repr

namespace Cursor

/-- The start of a text. -/
def start (text : List Char) : Cursor := ⟨text.takeWhile (· != endMark), 0, 0, 0⟩

/-- The next character. -/
def peek (c : Cursor) : Char := c.chars.headD endMark

/-- The character `n` places after the next one. -/
def peekAt (c : Cursor) (n : Nat) : Char := (c.chars.drop n).headD endMark

/-- Past the next character. Only a line feed starts a line. -/
def advance (c : Cursor) : Cursor :=
  match c.chars with
  | [] => c
  | '\n' :: rest => ⟨rest, c.index + 1, c.line + 1, 0⟩
  | _ :: rest => ⟨rest, c.index + 1, c.line, c.column + 1⟩

/-- Past the next `n` characters. -/
def advanceBy : Nat → Cursor → Cursor
  | 0, c => c
  | n + 1, c => advanceBy n c.advance

/-- Past a line break, of one character or of two. -/
def skipBreak (c : Cursor) : Cursor :=
  if c.peek == '\r' && c.peekAt 1 == '\n' then c.advance.advance
  else if isBreak c.peek then c.advance
  else c

/-- The characters that satisfy `p` up to the first that does not, and the cursor there. -/
def takeWhile (p : Char → Bool) (c : Cursor) : List Char × Cursor :=
  let taken := c.chars.takeWhile p
  (taken, advanceBy taken.length c)

/-- Past the characters that satisfy `p`. -/
def skipWhile (p : Char → Bool) (c : Cursor) : Cursor := (c.takeWhile p).2

/-- Past a comment, if one stands here. -/
def skipComment (c : Cursor) : Cursor :=
  if c.peek == '#' then c.skipWhile (!isBreakOrEnd ·) else c

/-- Whether `---` or `...` stands alone at the start of a line. -/
def atDocumentMark (c : Cursor) : Bool :=
  c.column == 0 && (c.chars.take 3 == ['-', '-', '-'] || c.chars.take 3 == ['.', '.', '.']) &&
    isGap (c.peekAt 3)

end Cursor

/-! ## 3. Folding -/

/-- A stretch of blanks and line breaks inside a scalar: the blanks while no line is broken, and how
    many lines are broken after the first. -/
structure Fold where
  blanks : List Char
  broken : Bool
  breaks : Nat
  deriving DecidableEq, Repr

namespace Fold

/-- No stretch at all. -/
def none : Fold := ⟨[], false, 0⟩

/-- What a stretch means: blanks stay, one broken line is a space, more are line feeds. -/
def chars (f : Fold) : List Char :=
  if f.broken then
    if f.breaks = 0 then [' '] else List.replicate f.breaks '\n'
  else f.blanks

end Fold

end FieldSelection.Yaml
