/-!
# Control sequences of terminals

A text for a terminal holds control sequences, which set a style, move the cursor or talk to the
device. Where no terminal shows the text they are left out:

* an escape character starts a sequence. What the characters after it tell is how far it goes: to a
  final character, or to the end of a string that the device gets;
* of the other control characters only tab, line feed, form feed and carriage return are kept;
* everything else is text.

White space inside of a sequence counts as text, and so does what follows it up to the next control
character; from there on the sequence goes on.
-/

namespace FieldSelection.Text.Terminal

/-- Where the reading of a text stands. -/
inductive State where
  | text
  /-- After an escape character. -/
  | escape
  /-- In an escape sequence of several characters. -/
  | escapeMore
  /-- In a control sequence, which ends with a letter or the like. -/
  | sequence
  /-- At the head of a string for the device. -/
  | deviceStart
  | deviceParameters
  | deviceMore
  /-- In a string, which goes to a byte that ends strings. -/
  | string
  /-- In a command to the system around the terminal, which goes to a bell. -/
  | command
  deriving DecidableEq, Repr

/-- White space among the control characters. -/
def isSpacing (c : Char) : Bool := c == '\t' || c == '\n' || c == '\x0c' || c == '\r'

/-- Whether a character is shown in a text. -/
def isText (c : Char) : Bool := (' ' ≤ c && c != '\x7f') || isSpacing c

/-- Whether the UTF-8 form of a character holds the byte that ends strings. -/
def endsString (c : Char) : Bool := (String.utf8EncodeChar c).contains 0x9C

/-- Whether a character lies between two others. -/
def within (low high c : Char) : Bool := low ≤ c && c ≤ high

/-- The state after an escape character and the one that follows it. -/
def afterEscape (c : Char) : State :=
  if within ' ' '/' c then .escapeMore
  else if c = '[' then .sequence
  else if c = ']' then .command
  else if c = 'P' then .deviceStart
  else if c = 'X' || c = '^' || c = '_' then .string
  else if within '0' '~' c then .text
  else .escape

/-- The state after a character. -/
def next (s : State) (c : Char) : State :=
  if c = '\x1b' then .escape
  else if c = '\x18' || c = '\x1a' then .text
  else match s with
    | .text => .text
    | .escape => afterEscape c
    | .escapeMore => if within '0' '~' c then .text else .escapeMore
    | .sequence => if within '@' '~' c then .text else .sequence
    | .deviceStart =>
      if within ' ' '/' c then .deviceMore
      else if within '0' '?' c then .deviceParameters
      else if within '@' '~' c then .string
      else .deviceStart
    | .deviceParameters =>
      if within ' ' '/' c then .deviceMore
      else if within '<' '~' c then .string
      else .deviceParameters
    | .deviceMore => if within '0' '~' c then .string else .deviceMore
    | .string => if endsString c then .text else .string
    | .command => if c = '\x07' then .text else .command

/-- Whether a character that is met in a state is shown. -/
def shows (s : State) (c : Char) : Bool :=
  match s with
  | .text => isText c
  | .escape | .escapeMore | .sequence => isSpacing c
  | _ => false

/-- The characters shown from a state on. `showing` while one text has been shown without an
    interruption; a character outside of ASCII in it also ends the sequence around it. -/
def shownFrom : (showing : Bool) → State → List Char → List Char
  | _, _, [] => []
  | showing, s, c :: rest =>
    if showing && isText c then c :: shownFrom true (if c ≤ '\x7f' then s else .text) rest
    else if shows s c then c :: shownFrom true (next s c) rest
    else shownFrom false (next s c) rest

/-- A text without control sequences. -/
def shown (text : String) : String := String.ofList (shownFrom false .text text.toList)

/-- A text in bold. -/
def bold (text : String) : String := "\x1b[1m" ++ text ++ "\x1b[0m"

/-- A text without control characters but white space is shown as it is. -/
theorem shownFrom_text (showing : Bool) (cs : List Char) (h : cs.all isText = true) :
    shownFrom showing .text cs = cs := by
  induction cs generalizing showing with
  | nil => cases showing <;> rfl
  | cons c cs ih =>
    simp only [List.all_cons, Bool.and_eq_true] at h
    have hnext : next .text c = .text := by
      have : c ≠ '\x1b' := by rintro rfl; simp [isText, isSpacing] at h
      simp [next, this]
    cases showing <;> simp [shownFrom, shows, h.1, hnext, ih _ h.2]

example : shown "\x1b[31mred\x1b[0m a\x1bb\x07c" = "red ac" := by decide
example : shown "\x1b]title\x07text" = "text" := by decide

end FieldSelection.Text.Terminal
