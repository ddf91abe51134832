import FieldSelection.Yaml.Scalar

/-!
# Tokens of a YAML text

The text is cut into tokens, and the tokens say where block collections begin and end:

* a block collection begins where an entry or a key stands further to the right than the block
  around it, and ends where the text comes back to the left;
* what turns out to be a key is known only at the colon after it. So wherever a key could start it
  is noted (`PossibleKey`), and the colon puts a key token there; a key has to stand on one line and
  within 1024 characters.
-/

namespace FieldSelection.Yaml

/-- A token. -/
inductive Token where
  | directive
  | documentStart
  | documentEnd
  | blockSequenceStart
  | blockMappingStart
  | blockEnd
  | flowSequenceStart
  | flowSequenceEnd
  | flowMappingStart
  | flowMappingEnd
  | blockEntry
  | flowEntry
  | key
  | value
  | alias (name : List Char)
  | anchor (name : List Char)
  | tag (handle rest : List Char)
  | scalar (plain : Bool) (text : List Char)
  deriving DecidableEq, Repr

/-- A place where a key may have started. -/
structure PossibleKey where
  possible : Bool
  required : Bool
  /-- The number of the token that the key starts with. -/
  token : Nat
  index : Nat
  line : Nat
  column : Nat

/-- No key. -/
def PossibleKey.none : PossibleKey := ⟨false, false, 0, 0, 0, 0⟩

/-- The tokens so far, and what is known about the place in the text. -/
structure Scanner where
  cursor : Cursor
  tokens : Array Token
  /-- The column of the innermost block, -1 outside of all. -/
  indent : Int
  /-- The columns of the blocks around it. -/
  indents : List Int
  /-- How many flow collections are open. -/
  flow : Nat
  keyAllowed : Bool
  /-- The possible keys of the flow collections that are open, the innermost first. -/
  keys : List PossibleKey
  /-- Where a colon may follow a quoted scalar at once. -/
  adjacentAt : Nat

namespace Scanner

/-! ## 1. Blocks and keys -/

/-- The scanner at the start of a text. -/
def start (text : List Char) : Scanner :=
  ⟨.start text, #[], -1, [], 0, true, [.none], 0⟩

/-- Adds a token. -/
def push (s : Scanner) (t : Token) : Scanner := { s with tokens := s.tokens.push t }

/-- Puts a token ahead of the token with a number. -/
def insertAt (s : Scanner) (number : Nat) (t : Token) : Scanner :=
  { s with tokens := s.tokens.insertIdxIfInBounds number t }

/-- Ends the blocks to the right of a column. -/
def unroll (column : Int) : (fuel : Nat) → Scanner → Scanner
  | 0, s => s
  | fuel + 1, s =>
    if s.flow = 0 && decide (column < s.indent) then
      unroll column fuel
        { s.push .blockEnd with indent := s.indents.headD (-1), indents := s.indents.tail }
    else s

/-- Ends the blocks to the right of a column. -/
def unrollTo (s : Scanner) (column : Int) : Scanner := unroll column (s.indents.length + 1) s

/-- Begins a block at a column to the right of the block around it, ahead of the token with a number
    or here. -/
def roll (s : Scanner) (column : Nat) (number : Option Nat) (t : Token) : Scanner :=
  if s.flow = 0 && decide (s.indent < (column : Int)) then
    let s := { s with indents := s.indent :: s.indents, indent := column }
    match number with
    | some number => s.insertAt number t
    | none => s.push t
  else s

/-- Gives up the possible keys that stand on an earlier line or too far back. -/
def dropStaleKeys (s : Scanner) : Except Failure Scanner := do
  let keys ← s.keys.mapM fun k =>
    let stale := decide (k.line < s.cursor.line) || decide (k.index + 1024 < s.cursor.index)
    if k.possible && stale then
      if k.required then throw .missingColon else pure { k with possible := false }
    else pure k
  return { s with keys }

/-- Gives up the innermost possible key. -/
def removeKey (s : Scanner) : Except Failure Scanner :=
  match s.keys with
  | [] => .ok s
  | k :: keys =>
    if k.possible && k.required then .error .missingColon
    else .ok { s with keys := { k with possible := false } :: keys }

/-- Notes that a key may start here. -/
def saveKey (s : Scanner) : Except Failure Scanner :=
  if s.keyAllowed then do
    let c := s.cursor
    let required := decide (0 < s.flow) && decide (s.indent = (c.column : Int))
    let s ← s.removeKey
    let k : PossibleKey := ⟨true, required, s.tokens.size, c.index, c.line, c.column⟩
    return { s with keys := k :: s.keys.tail }
  else .ok s

/-- Whether a key may start next. -/
def allowKey (s : Scanner) (allowed : Bool) : Scanner := { s with keyAllowed := allowed }

/-- Takes `n` characters as a token. -/
def take (s : Scanner) (n : Nat) (t : Token) : Scanner :=
  { s.push t with cursor := Cursor.advanceBy n s.cursor }

/-! ## 2. Between tokens -/

/-- Past blanks, comments and line breaks. A tab is no blank where a key may start in a block. -/
def skipGap : (fuel : Nat) → Scanner → Scanner
  | 0, s => s
  | fuel + 1, s =>
    let c := s.cursor
    if c.peek == ' ' || (c.peek == '\t' && (decide (0 < s.flow) || !s.keyAllowed)) then
      skipGap fuel { s with cursor := c.advance }
    else if isBreak c.peek then
      skipGap fuel { s with cursor := c.skipBreak, keyAllowed := s.keyAllowed || s.flow == 0 }
    else if c.peek == '#' then skipGap fuel { s with cursor := c.skipComment }
    else s

/-! ## 3. Directives, tags and anchors -/

/-- The digits of a version number, at most nine. -/
def skipVersionNumber (c : Cursor) : Except Failure Cursor :=
  let (digits, rest) := c.takeWhile Char.isDigit
  if digits.isEmpty || 9 < digits.length then .error .badDirective else .ok rest

/-- The handle of a tag: `!`, or `!` and a word and perhaps `!`. -/
def tagHandle (c : Cursor) : Except Failure (List Char × Cursor) :=
  if c.peek == '!' then
    let (word, c) := c.advance.takeWhile isWordChar
    if c.peek == '!' then .ok ('!' :: word ++ ['!'], c.advance) else .ok ('!' :: word, c)
  else .error .badTag

/-- Whether a character may stand in the rest of a tag. -/
def isTagChar (c : Char) : Bool :=
  isWordChar c || c ∈ [';', '/', '?', ':', '@', '&', '=', '+', '$', ',', '.', '!', '~', '*', '\'',
    '(', ')', '[', ']']

/-- The byte of two hexadecimal digits after a percent sign. -/
def percentByte (c : Cursor) : Option Nat :=
  if c.peek == '%' then
    match Text.hexDigit? (c.peekAt 1), Text.hexDigit? (c.peekAt 2) with
    | some a, some b => some (16 * a + b)
    | _, _ => none
  else none

/-- Further bytes of a character, each with its leading bits `10`, after those that make up
    `value`. -/
def percentTail : (count value : Nat) → Cursor → Except Failure (Nat × Cursor)
  | 0, value, c => .ok (value, c)
  | count + 1, value, c =>
    match percentByte c with
    | some byte =>
      if byte / 64 = 2 then percentTail count (256 * value + byte) (Cursor.advanceBy 3 c)
      else .error .badTag
    | none => .error .badTag

/-- A character written in hexadecimal: the first byte tells how many there are, and all bytes in a
    row are the number of the character. -/
def percentChar (c : Cursor) : Except Failure (Char × Cursor) := do
  match percentByte c with
  | none => throw .badTag
  | some byte =>
    let count ←
      if byte < 0x80 then pure 0
      else if byte / 32 = 6 then pure 1
      else if byte / 16 = 14 then pure 2
      else if byte / 8 = 30 then pure 3
      else throw .badTag
    let (value, c) ← percentTail count byte (Cursor.advanceBy 3 c)
    if value.isValidChar then return (Char.ofNat value, c) else throw .badTag

/-- The rest of a tag. -/
def tagRest : (fuel : Nat) → Cursor → Except Failure (List Char × Cursor)
  | 0, c => .ok ([], c)
  | fuel + 1, c =>
    if c.peek == '%' then do
      let (value, c) ← percentChar c
      let (rest, c) ← tagRest fuel c
      return (value :: rest, c)
    else if isTagChar c.peek then do
      let (rest, c') ← tagRest fuel c.advance
      return (c.peek :: rest, c')
    else .ok ([], c)

/-- A tag: `!<...>`, `!handle!rest` or `!rest`. -/
def tag (c : Cursor) : Except Failure (Token × Cursor) := do
  let (token, c) ←
    if c.peekAt 1 == '<' then do
      let (rest, c) ← tagRest c.chars.length (Cursor.advanceBy 2 c)
      if rest.isEmpty || c.peek != '>' then throw .badTag
      pure (Token.tag [] rest, c.advance)
    else do
      let (handle, c) ← tagHandle c
      let isHandle := decide (2 ≤ handle.length) && handle.getLast? == some '!'
      let (rest, c) ← tagRest c.chars.length c
      if isHandle then
        if rest.isEmpty then throw .badTag
        pure (Token.tag handle rest, c)
      else
        let rest := handle.tail ++ rest
        pure (if rest.isEmpty then Token.tag [] ['!'] else Token.tag ['!'] rest, c)
  if isGap c.peek then return (token, c) else throw .badTag

/-- The cursor after a directive, with its line. -/
def directive (c : Cursor) : Except Failure Cursor := do
  let (word, c) := c.advance.takeWhile isWordChar
  if word.isEmpty || !isGap c.peek then throw .badDirective
  let c ←
    if word == "YAML".toList then do
      let c ← skipVersionNumber (c.skipWhile isBlank)
      if c.peek != '.' then throw .badDirective
      skipVersionNumber c.advance
    else if word == "TAG".toList then do
      let (handle, c) ← tagHandle (c.skipWhile isBlank)
      if handle.length ≠ 1 && handle.getLast? != some '!' then throw .badTag
      let (rest, c) ← tagRest c.chars.length (c.skipWhile isBlank)
      if rest.isEmpty || !isGap c.peek then throw .badTag
      pure c
    else pure (c.skipWhile (!isBreakOrEnd ·))
  let c := (c.skipWhile isBlank).skipComment
  if isBreakOrEnd c.peek then return c.skipBreak else throw .badDirective

/-- The name of an anchor or an alias. -/
def anchorName (c : Cursor) : Except Failure (List Char × Cursor) :=
  let (name, c) := c.advance.takeWhile isWordChar
  let ended := isGap c.peek || c.peek ∈ ['?', ':', ',', ']', '}', '%', '@', '\x60']
  if name.isEmpty || !ended then .error .badAnchor else .ok (name, c)

/-! ## 4. One token -/

/-- The start of a flow collection. -/
def openFlow (s : Scanner) (t : Token) : Except Failure Scanner := do
  let s ← s.saveKey
  if 255 ≤ s.flow then throw .tooDeep
  return ({ s with keys := .none :: s.keys, flow := s.flow + 1 }.allowKey true).take 1 t

/-- The end of a flow collection. -/
def closeFlow (s : Scanner) (t : Token) : Except Failure Scanner := do
  let s ← s.removeKey
  let s := if s.flow = 0 then s else { s with flow := s.flow - 1, keys := s.keys.tail }
  return (s.allowKey false).take 1 t

/-- The dash of a block sequence. -/
def entry (s : Scanner) : Except Failure Scanner := do
  if s.flow ≠ 0 || !s.keyAllowed then throw .entryNotAllowed
  let s ← (s.roll s.cursor.column none .blockSequenceStart).removeKey
  return (s.allowKey true).take 1 .blockEntry

/-- The question mark ahead of a key. -/
def explicitKey (s : Scanner) : Except Failure Scanner := do
  if s.flow = 0 && !s.keyAllowed then throw .keyNotAllowed
  let s ← (s.roll s.cursor.column none .blockMappingStart).removeKey
  return (s.allowKey (s.flow == 0)).take 1 .key

/-- The colon ahead of a value: what the innermost possible key starts with is a key. -/
def valueMark (s : Scanner) : Except Failure Scanner :=
  match s.keys with
  | k :: keys =>
    if k.possible then
      let s := (s.insertAt k.token .key).roll k.column (some k.token) .blockMappingStart
      .ok (({ s with keys := { k with possible := false } :: keys }.allowKey false).take 1 .value)
    else if s.flow = 0 && !s.keyAllowed then .error .valueNotAllowed
    else
      let s := s.roll s.cursor.column none .blockMappingStart
      .ok ((s.allowKey (s.flow == 0)).take 1 .value)
  | [] => .error .valueNotAllowed

/-- A token that may start a key, read from the cursor on. -/
def keyToken (s : Scanner) (allowed : Bool) (read : Cursor → Except Failure (Token × Cursor)) :
    Except Failure Scanner := do
  let s ← s.saveKey
  let (token, c) ← read s.cursor
  return ({ s with cursor := c }.allowKey allowed).push token

/-- A plain scalar. A key may follow where the scalar ends with a broken line. -/
def plain (s : Scanner) : Except Failure Scanner := do
  let s ← s.saveKey
  let (text, c, broken) ← plainScalar (decide (0 < s.flow)) (s.indent + 1) s.cursor
  return ({ s with cursor := c }.allowKey broken).push (.scalar true text)

/-- A quoted scalar. -/
def quoted (s : Scanner) (single : Bool) : Except Failure Scanner := do
  let s ← s.keyToken false fun c => do
    let (text, c) ← quotedScalar single c
    return (.scalar false text, c)
  return { s with adjacentAt := s.cursor.index }

/-- The tokens at the cursor, past the gap ahead of them. -/
def next (s : Scanner) : Except Failure Scanner := do
  let c := s.cursor
  let c0 := c.peek
  let c1 := c.peekAt 1
  if c.column = 0 && c0 == '%' then
    let s ← (s.unrollTo (-1)).removeKey
    let c ← directive s.cursor
    return ({ s with cursor := c }.allowKey false).push .directive
  else if c.atDocumentMark then
    let s ← (s.unrollTo (-1)).removeKey
    return (s.allowKey false).take 3 (if c0 == '-' then .documentStart else .documentEnd)
  else if c0 == '[' then s.openFlow .flowSequenceStart
  else if c0 == '{' then s.openFlow .flowMappingStart
  else if c0 == ']' then s.closeFlow .flowSequenceEnd
  else if c0 == '}' then s.closeFlow .flowMappingEnd
  else if c0 == ',' then
    let s ← s.removeKey
    return (s.allowKey true).take 1 .flowEntry
  else if c0 == '-' && isGap c1 then s.entry
  else if c0 == '?' && isGap c1 then s.explicitKey
  else if c0 == ':' &&
      (isGap c1 || (decide (0 < s.flow) && (isFlowMark c1 || c.index == s.adjacentAt))) then
    s.valueMark
  else if c0 == '*' then s.keyToken false fun c => do
    let (name, c) ← anchorName c
    return (.alias name, c)
  else if c0 == '&' then s.keyToken false fun c => do
    let (name, c) ← anchorName c
    return (.anchor name, c)
  else if c0 == '!' then s.keyToken false tag
  else if (c0 == '|' || c0 == '>') && s.flow = 0 then s.keyToken true fun c => do
    let (text, c) ← blockScalar (c0 == '|') s.indent c
    return (.scalar false text, c)
  else if c0 == '\'' then s.quoted true
  else if c0 == '"' then s.quoted false
  else if c0 == '%' || c0 == '@' || c0 == '\x60' then throw (.unexpectedCharacter c0)
  else s.plain

/-! ## 5. All tokens -/

/-- The tokens from the cursor to the end of the text. Each round takes at least one character. -/
def run : (fuel : Nat) → Scanner → Except Failure Scanner
  | 0, s => .ok s
  | fuel + 1, s => do
    let s ← (skipGap (s.cursor.chars.length + 1) s).dropStaleKeys
    if s.cursor.chars.isEmpty then (s.unrollTo (-1)).removeKey
    else
      let s ← (s.unrollTo s.cursor.column).next
      run fuel s

end Scanner

/-- The tokens of a text. -/
def Token.ofText (text : List Char) : Except Failure (List Token) := do
  let s ← Scanner.run (text.length + 1) (.start text)
  return s.tokens.toList

end FieldSelection.Yaml
