import FieldSelection.Yaml.Cursor
import FieldSelection.Text.Quoted

/-!
# Scalars of a YAML text

The three ways to write a scalar: plain, between quotes, and as an indented block. Each reader
starts at the first character of the scalar and answers its text and the cursor after it. The loops
are bounded by the number of characters left.
-/

namespace FieldSelection.Yaml

/-! ## 1. Plain scalars -/

/-- The characters of a plain scalar up to a gap, a colon that ends a key, or a mark of the flow
    collection around it. -/
def plainWord (inFlow : Bool) : List Char → List Char
  | [] => []
  | c :: rest =>
    let next := rest.headD endMark
    if isGap c then []
    else if c == ':' && (isGap next || (inFlow && isFlowMark next)) then []
    else if inFlow && isFlowMark c then []
    else c :: plainWord inFlow rest

/-- The stretch of blanks and line breaks in a plain scalar. A broken line goes on with at least
    `indent` columns before a tab. -/
def plainFold (indent : Int) : (fuel : Nat) → Fold → Cursor → Except Failure (Fold × Cursor)
  | 0, f, c => .ok (f, c)
  | fuel + 1, f, c =>
    if isBlank c.peek then
      if f.broken && decide ((c.column : Int) < indent) && c.peek == '\t' then
        .error .tabAsIndentation
      else
        let f := if f.broken then f else { f with blanks := f.blanks ++ [c.peek] }
        plainFold indent fuel f c.advance
    else if isBreak c.peek then
      let f := if f.broken then { f with breaks := f.breaks + 1 } else ⟨[], true, 0⟩
      plainFold indent fuel f c.skipBreak
    else .ok (f, c)

/-- The text of a plain scalar from here on, after `text` and a stretch. The last part tells whether
    the scalar ends with a broken line. -/
def plainRest (inFlow : Bool) (indent : Int) : (fuel : Nat) → (text : List Char) → Fold → Cursor →
    Except Failure (List Char × Cursor × Bool)
  | 0, text, f, c => .ok (text, c, f.broken)
  | fuel + 1, text, f, c =>
    if c.atDocumentMark || c.peek == '#' then .ok (text, c, f.broken)
    else
      let word := plainWord inFlow c.chars
      let text' := if word.isEmpty then text else text ++ f.chars ++ word
      let f := if word.isEmpty then f else Fold.none
      let c := Cursor.advanceBy word.length c
      if isBlank c.peek || isBreak c.peek then do
        let (f, c) ← plainFold indent c.chars.length f c
        if !inFlow && decide ((c.column : Int) < indent) then return (text', c, f.broken)
        else plainRest inFlow indent fuel text' f c
      else .ok (text', c, f.broken)

/-- A plain scalar. -/
def plainScalar (inFlow : Bool) (indent : Int) (c : Cursor) :
    Except Failure (List Char × Cursor × Bool) :=
  plainRest inFlow indent (c.chars.length + 1) [] Fold.none c

/-! ## 2. Quoted scalars -/

/-- The value of hexadecimal digits. -/
def hexValue? (cs : List Char) : Option Nat :=
  cs.foldlM (fun n c => (Text.hexDigit? c).map (16 * n + ·)) 0

/-- The character that a one-letter escape stands for. -/
def letterEscape? : Char → Option Char
  | '0' => some '\x00'
  | 'a' => some '\x07'
  | 'b' => some '\x08'
  | 't' => some '\t'
  | '\t' => some '\t'
  | 'n' => some '\n'
  | 'v' => some '\x0b'
  | 'f' => some '\x0c'
  | 'r' => some '\r'
  | 'e' => some '\x1b'
  | ' ' => some ' '
  | '"' => some '"'
  | '\'' => some '\''
  | '\\' => some '\\'
  | 'N' => some '\u0085'
  | '_' => some '\u00a0'
  | 'L' => some '\u2028'
  | 'P' => some '\u2029'
  | _ => none

/-- How many hexadecimal digits follow the letter of an escape. -/
def escapeDigits : Char → Option Nat
  | 'x' => some 2
  | 'u' => some 4
  | 'U' => some 8
  | _ => none

/-- The character of an escape, and how many characters the escape has after its backslash. -/
def doubleQuotedEscape (c : Cursor) : Except Failure (Char × Nat) :=
  match escapeDigits (c.peekAt 1) with
  | some digits =>
    match hexValue? ((c.chars.drop 2).take digits) with
    | some n =>
      if (c.chars.drop 2).length < digits || !decide n.isValidChar then .error .badEscape
      else .ok (Char.ofNat n, digits + 1)
    | none => .error .badEscape
  | none =>
    match letterEscape? (c.peekAt 1) with
    | some value => .ok (value, 1)
    | none => .error .badEscape

/-- The characters of a quoted scalar up to a gap or the closing quote. The last part tells whether
    they end with an escaped line break. -/
def quotedWord (single : Bool) : (fuel : Nat) → Cursor → Except Failure (List Char × Cursor × Bool)
  | 0, c => .ok ([], c, false)
  | fuel + 1, c =>
    let read := fun (value : Char) (size : Nat) => do
      let (word, c, dropped) ← quotedWord single fuel (Cursor.advanceBy size c)
      return (value :: word, c, dropped)
    if isGap c.peek then .ok ([], c, false)
    else if single then
      if c.peek == '\'' then
        if c.peekAt 1 == '\'' then read '\'' 2 else .ok ([], c, false)
      else read c.peek 1
    else if c.peek == '"' then .ok ([], c, false)
    else if c.peek == '\\' then
      if isBreak (c.peekAt 1) then .ok ([], c.advance.skipBreak, true)
      else do
        let (value, size) ← doubleQuotedEscape c
        read value (size + 1)
    else read c.peek 1

/-- The stretch of blanks and line breaks in a quoted scalar; `dropped` after an escaped line break,
    which itself means nothing. -/
def quotedFold (dropped : Bool) : (fuel : Nat) → Fold → Cursor → Fold × Cursor
  | 0, f, c => (f, c)
  | fuel + 1, f, c =>
    if isBlank c.peek then
      let f := if f.broken || dropped then f else { f with blanks := f.blanks ++ [c.peek] }
      quotedFold dropped fuel f c.advance
    else if isBreak c.peek then
      let f :=
        if f.broken || dropped then { f with breaks := f.breaks + 1 } else ⟨[], true, 0⟩
      quotedFold dropped fuel f c.skipBreak
    else (f, c)

/-- The text of a quoted scalar from here on, after `text`. -/
def quotedRest (single : Bool) : (fuel : Nat) → (text : List Char) → Cursor →
    Except Failure (List Char × Cursor)
  | 0, _, _ => .error .unterminatedQuote
  | fuel + 1, text, c =>
    if c.atDocumentMark || c.peek == endMark then .error .unterminatedQuote
    else do
      let (word, c, dropped) ← quotedWord single (c.chars.length + 1) c
      let text := text ++ word
      if c.peek == (if single then '\'' else '"') then return (text, c.advance)
      else
        let (f, c) := quotedFold dropped c.chars.length Fold.none c
        let fold := if dropped then List.replicate f.breaks '\n' else f.chars
        quotedRest single fuel (text ++ fold) c

/-- A scalar between quotes, single or double. -/
def quotedScalar (single : Bool) (c : Cursor) : Except Failure (List Char × Cursor) :=
  quotedRest single (c.chars.length + 1) [] c.advance

/-! ## 3. Block scalars -/

/-- Which line breaks at the end of a block scalar count. -/
inductive Chomping where
  | strip | clip | keep
  deriving DecidableEq, Repr

/-- The header of a block scalar: chomping and indentation, in either order. -/
def blockHeader (c : Cursor) : Except Failure (Chomping × Nat × Cursor) :=
  let chomping? := fun c : Char =>
    if c == '+' then some Chomping.keep else if c == '-' then some Chomping.strip else none
  let digit? := fun c : Char => if c.isDigit then some (c.toNat - 48) else none
  match chomping? c.peek with
  | some chomping =>
    match digit? (c.peekAt 1) with
    | some 0 => .error .badBlockHeader
    | some n => .ok (chomping, n, c.advance.advance)
    | none => .ok (chomping, 0, c.advance)
  | none =>
    match digit? c.peek with
    | some 0 => .error .badBlockHeader
    | some n =>
      match chomping? (c.peekAt 1) with
      | some chomping => .ok (chomping, n, c.advance.advance)
      | none => .ok (.clip, n, c.advance)
    | none => .ok (.clip, 0, c)

/-- Past the spaces of an indentation; `none` stands for one that is not known yet. -/
def skipIndent (indent : Nat) : (fuel : Nat) → Cursor → Cursor
  | 0, c => c
  | fuel + 1, c =>
    if (indent = 0 || decide (c.column < indent)) && c.peek == ' ' then
      skipIndent indent fuel c.advance
    else c

/-- Past empty lines and the indentation after them: how many line breaks, and the deepest column
    reached. -/
def blockBreaks (indent : Nat) : (fuel : Nat) → (breaks deepest : Nat) → Cursor →
    Except Failure (Nat × Nat × Cursor)
  | 0, breaks, deepest, c => .ok (breaks, deepest, c)
  | fuel + 1, breaks, deepest, c =>
    let c := skipIndent indent c.chars.length c
    let deepest := max deepest c.column
    if (indent = 0 || decide (c.column < indent)) && c.peek == '\t' then .error .tabAsIndentation
    else if isBreak c.peek then blockBreaks indent fuel (breaks + 1) deepest c.skipBreak
    else .ok (breaks, deepest, c)

/-- The lines of a block scalar. `lead` tells whether a line break is pending, `trail` how many
    empty lines follow it, `blankBefore` whether the line before started with a blank. -/
def blockLines (literal : Bool) (indent : Nat) : (fuel : Nat) → (text : List Char) →
    (lead : Bool) → (trail : Nat) → (blankBefore : Bool) → Cursor →
    Except Failure (List Char × Bool × Nat × Cursor)
  | 0, text, lead, trail, _, c => .ok (text, lead, trail, c)
  | fuel + 1, text, lead, trail, blankBefore, c =>
    if c.column == indent && c.peek != endMark then do
      let blankHere := isBlank c.peek
      let leading : List Char :=
        if !literal && lead && !blankBefore && !blankHere then
          if trail = 0 then [' '] else []
        else if lead then ['\n'] else []
      let (line, c) := c.takeWhile (!isBreakOrEnd ·)
      let text := text ++ leading ++ List.replicate trail '\n' ++ line
      if c.peek == endMark then return (text, false, 0, c)
      else
        let (trail, _, c) ← blockBreaks indent c.chars.length 0 0 c.skipBreak
        blockLines literal indent fuel text true trail blankHere c
    else .ok (text, lead, trail, c)

/-- A block scalar in a block of an indentation. -/
def blockScalar (literal : Bool) (parent : Int) (c : Cursor) :
    Except Failure (List Char × Cursor) := do
  let (chomping, increment, c) ← blockHeader c.advance
  let c := (c.skipWhile isBlank).skipComment
  if !isBreakOrEnd c.peek then throw .badBlockHeader
  let c := c.skipBreak
  let given := if increment = 0 then 0 else (max parent 0).toNat + increment
  let (breaks, deepest, c) ← blockBreaks given c.chars.length 0 0 c
  let indent := if given = 0 then max (max deepest (parent + 1).toNat) 1 else given
  let (text, lead, trail, c) ←
    blockLines literal indent (c.chars.length + 1) [] false breaks false c
  let tail : List Char := match chomping with
    | .strip => []
    | .clip => if lead then ['\n'] else []
    | .keep => (if lead then ['\n'] else []) ++ List.replicate trail '\n'
  return (text ++ tail, c)

end FieldSelection.Yaml
