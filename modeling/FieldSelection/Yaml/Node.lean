import FieldSelection.Datum
import FieldSelection.Yaml.Token

/-!
# Documents of a YAML text

From the tokens of a text to its one document. A node is a scalar, a sequence, a mapping, or an
alias for a node before it; a node that is left out is the scalar `~`.

The readers go over the tokens from left to right, carrying the anchors that they have met. Each
call either takes a token or passes to one that does, which the fuel of `Node.ofTokens` allows for.
-/

namespace FieldSelection.Yaml

/-- A node of a document. -/
inductive Node where
  | scalar (plain : Bool) (tag : Option (List Char × List Char)) (text : List Char)
  | sequence (items : List Node)
  | mapping (entries : List (Node × Node))
  /-- An alias, with the node that it stands for. -/
  | alias (target : Node)

namespace Node

/-- The node that is left out. -/
def missing : Node := .scalar true none ['~']

/-- The tokens left, and the anchors so far, the latest first; an anchor whose node is not complete
    stands for none. A name stands for the node that it was last put ahead of. -/
structure Reader where
  tokens : List Token
  anchors : List (List Char × Option Node)

/-- The reader past the next token. -/
def Reader.skip (r : Reader) : Reader := { r with tokens := r.tokens.tail }

/-- Whether the next token is one of those given. -/
def Reader.isAt (r : Reader) (ts : List Token) : Bool :=
  match r.tokens with
  | [] => false
  | t :: _ => t ∈ ts

/-- Anchor and tag of a node, in either order. -/
def properties (r : Reader) :
    Option (List Char) × Option (List Char × List Char) × Reader :=
  match r.tokens with
  | .anchor name :: .tag handle rest :: ts =>
    (some name, some (handle, rest), { r with tokens := ts })
  | .anchor name :: ts => (some name, none, { r with tokens := ts })
  | .tag handle rest :: .anchor name :: ts =>
    (some name, some (handle, rest), { r with tokens := ts })
  | .tag handle rest :: ts => (none, some (handle, rest), { r with tokens := ts })
  | _ => (none, none, r)

/-- The node of an alias. -/
def resolve (r : Reader) (name : List Char) : Except Failure Node :=
  match r.anchors.lookup name with
  | some (some node) => .ok node
  | some none => .error (.cyclicAlias (String.ofList name))
  | none => .error (.unknownAnchor (String.ofList name))

/-- Notes an anchor ahead of its node. -/
def Reader.note (r : Reader) : (anchor : Option (List Char)) → Reader
  | some name => { r with anchors := (name, none) :: r.anchors }
  | none => r

/-- Completes the node of an anchor, unless its name stands for a node inside of that one now. -/
def Reader.complete (r : Reader) (node : Node) : (anchor : Option (List Char)) → Reader
  | some name =>
    match r.anchors.lookup name with
    | some (some _) => r
    | _ => { r with anchors := (name, some node) :: r.anchors }
  | none => r

mutual

/-- A node. `block` where block collections may stand, `indentless` where a sequence may stand at
    the column of its key. -/
def read : (fuel : Nat) → (block indentless : Bool) → Reader → Except Failure (Node × Reader)
  | 0, _, _, _ => .error .unexpectedToken
  | fuel + 1, block, indentless, r =>
    match r.tokens with
    | .alias name :: ts => do
      let target ← resolve r name
      return (.alias target, { r with tokens := ts })
    | _ => do
      let (anchor, tag, r) := properties r
      let r := r.note anchor
      let (node, r) ←
        match r.tokens with
        | .scalar plain text :: _ => pure (Node.scalar plain tag text, r.skip)
        | .flowSequenceStart :: _ => flowSequence fuel true [] r.skip
        | .flowMappingStart :: _ => flowMapping fuel true [] r.skip
        | .blockEntry :: _ =>
          if indentless then indentlessSequence fuel [] r
          else if anchor.isSome || tag.isSome then pure (Node.scalar true tag [], r)
          else throw .unexpectedToken
        | .blockSequenceStart :: _ =>
          if block then blockSequence fuel [] r.skip
          else if anchor.isSome || tag.isSome then pure (Node.scalar true tag [], r)
          else throw .unexpectedToken
        | .blockMappingStart :: _ =>
          if block then blockMapping fuel [] r.skip
          else if anchor.isSome || tag.isSome then pure (Node.scalar true tag [], r)
          else throw .unexpectedToken
        | _ =>
          if anchor.isSome || tag.isSome then pure (Node.scalar true tag [], r)
          else throw .unexpectedToken
      return (node, r.complete node anchor)

/-- A node unless one of the tokens given is next: then it is left out. -/
def readUnless (ts : List Token) : (fuel : Nat) → (block indentless : Bool) → Reader →
    Except Failure (Node × Reader)
  | 0, _, _, _ => .error .unexpectedToken
  | fuel + 1, block, indentless, r =>
    if r.isAt ts then .ok (missing, r) else read fuel block indentless r

/-- The entries of a block sequence. -/
def blockSequence : (fuel : Nat) → (items : List Node) → Reader → Except Failure (Node × Reader)
  | 0, _, _ => .error .unexpectedToken
  | fuel + 1, items, r =>
    match r.tokens with
    | .blockEnd :: _ => .ok (.sequence items.reverse, r.skip)
    | .blockEntry :: _ => do
      let (item, r) ← readUnless [.blockEntry, .blockEnd] fuel true false r.skip
      blockSequence fuel (item :: items) r
    | _ => .error .unexpectedToken

/-- The entries of a block sequence at the column of its key. -/
def indentlessSequence : (fuel : Nat) → (items : List Node) → Reader →
    Except Failure (Node × Reader)
  | 0, _, _ => .error .unexpectedToken
  | fuel + 1, items, r =>
    match r.tokens with
    | .blockEntry :: _ => do
      let (item, r) ← readUnless [.blockEntry, .key, .value, .blockEnd] fuel true false r.skip
      indentlessSequence fuel (item :: items) r
    | _ => .ok (.sequence items.reverse, r)

/-- The entries of a block mapping. -/
def blockMapping : (fuel : Nat) → (entries : List (Node × Node)) → Reader →
    Except Failure (Node × Reader)
  | 0, _, _ => .error .unexpectedToken
  | fuel + 1, entries, r =>
    let ends := [Token.key, .value, .blockEnd]
    match r.tokens with
    | .blockEnd :: _ => .ok (.mapping entries.reverse, r.skip)
    | .key :: _ => do
      let (key, r) ← readUnless ends fuel true true r.skip
      let (value, r) ← valueOrMissing ends true fuel r
      blockMapping fuel ((key, value) :: entries) r
    | .value :: _ => do
      let (value, r) ← valueOrMissing ends true fuel r
      blockMapping fuel ((missing, value) :: entries) r
    | _ => .error .unexpectedToken

/-- The value after a colon; left out without a colon, or where one of the tokens given follows. -/
def valueOrMissing (ends : List Token) (block : Bool) : (fuel : Nat) → Reader →
    Except Failure (Node × Reader)
  | 0, _ => .error .unexpectedToken
  | fuel + 1, r =>
    match r.tokens with
    | .value :: _ => readUnless ends fuel block block r.skip
    | _ => .ok (missing, r)

/-- The entries of a flow mapping. -/
def flowMapping : (fuel : Nat) → (first : Bool) → (entries : List (Node × Node)) → Reader →
    Except Failure (Node × Reader)
  | 0, _, _, _ => .error .unexpectedToken
  | fuel + 1, first, entries, r =>
    if r.isAt [.flowMappingEnd] then .ok (.mapping entries.reverse, r.skip)
    else if !first && !r.isAt [.flowEntry] then .error .unexpectedToken
    else
      let ends := [Token.flowEntry, .flowMappingEnd]
      let r := if first then r else r.skip
      match r.tokens with
      | .flowMappingEnd :: _ => .ok (.mapping entries.reverse, r.skip)
      | .key :: _ => do
        let (key, r) ← readUnless (.value :: ends) fuel false false r.skip
        let (value, r) ← valueOrMissing ends false fuel r
        flowMapping fuel false ((key, value) :: entries) r
      | .value :: _ => do
        let (value, r) ← valueOrMissing ends false fuel r
        flowMapping fuel false ((missing, value) :: entries) r
      | _ => do
        let (key, r) ← read fuel false false r
        flowMapping fuel false ((key, missing) :: entries) r

/-- The entries of a flow sequence; one with a colon is a mapping of its own. -/
def flowSequence : (fuel : Nat) → (first : Bool) → (items : List Node) → Reader →
    Except Failure (Node × Reader)
  | 0, _, _, _ => .error .unexpectedToken
  | fuel + 1, first, items, r =>
    if r.isAt [.flowSequenceEnd] then .ok (.sequence items.reverse, r.skip)
    else if !first && !r.isAt [.flowEntry] then .error .unexpectedToken
    else
      let ends := [Token.flowEntry, .flowSequenceEnd]
      let r := if first then r else r.skip
      match r.tokens with
      | .flowSequenceEnd :: _ => .ok (.sequence items.reverse, r.skip)
      | .key :: _ => do
        let r := r.skip
        let (key, r) ←
          if r.isAt (.value :: ends) then pure (missing, r.skip) else read fuel false false r
        let (value, r) ← valueOrMissing ends false fuel r
        flowSequence fuel false (.mapping [(key, value)] :: items) r
      | _ => do
        let (item, r) ← read fuel false false r
        flowSequence fuel false (item :: items) r

end

/-- The one document of a list of tokens. -/
def ofTokens (ts : List Token) : Except Failure Node := do
  let fuel := 4 * ts.length + 4
  let (node, r) ←
    match ts with
    | [] => throw .noDocument
    | .directive :: _ | .documentStart :: _ =>
      match ts.dropWhile (· == .directive) with
      | .documentStart :: ts =>
        if ts.isEmpty then pure (missing, (⟨[], []⟩ : Reader))
        else readUnless [.directive, .documentStart, .documentEnd] fuel true false ⟨ts, []⟩
      | _ => throw .unexpectedToken
    | _ => read fuel true false ⟨ts, []⟩
  if (r.tokens.dropWhile (· == .documentEnd)).isEmpty then return node else throw .severalDocuments

/-- The one document of a text. -/
def ofText (text : String) : Except Failure Node := do
  ofTokens (← Token.ofText text.toList)

/-! ## Nodes as data -/

/-- The integer of decimal, hexadecimal, octal or binary digits. -/
def digits? (base : Nat) (cs : List Char) : Option Nat :=
  if cs.isEmpty then none
  else cs.foldlM (fun n c => (Text.hexDigit? c).bind fun d =>
    if d < base then some (base * n + d) else none) 0

/-- Digits after at most one plus sign. -/
def signedDigits? (base : Nat) : List Char → Option Nat
  | '+' :: cs => digits? base cs
  | cs => digits? base cs

/-- The integer that a plain scalar stands for: in decimal without leading zeros, or with the marks
    `0x`, `0o` and `0b`. -/
def plainInteger? (cs : List Char) : Option Int :=
  let unsigned := match cs with
    | '+' :: rest => rest
    | _ => cs
  let marked? : Option (Option Int) := match cs, unsigned with
    | '-' :: '0' :: m :: rest, _ => (base? m).map fun base => (digits? base rest).map (-Int.ofNat ·)
    | _, '0' :: m :: rest => (base? m).map fun base => (signedDigits? base rest).map Int.ofNat
    | _, _ => none
  let bare := cs.dropWhile fun c => c == '-' || c == '+'
  match marked? with
  | some (some n) => some n
  | _ =>
    if decide (1 < bare.length) && bare.head? == some '0' then none
    else
      match cs with
      | '-' :: rest => (digits? 10 rest).map (-Int.ofNat ·)
      | _ => (signedDigits? 10 cs).map Int.ofNat
where
  /-- The base of a mark. -/
  base? : Char → Option Nat
    | 'x' => some 16
    | 'o' => some 8
    | 'b' => some 2
    | _ => none

/-- The integer that a scalar stands for: plain ones by their form, and those tagged `!!int` by
    their decimal digits, within 64 bits. -/
def integer? (plain : Bool) (tag : Option (List Char × List Char)) (text : List Char) :
    Option Int :=
  match tag with
  | none => if plain then plainInteger? text else none
  | some (handle, rest) =>
    if handle == "!!".toList && rest == "int".toList then
      let n? := match text with
        | '-' :: cs => (digits? 10 cs).map (-Int.ofNat ·)
        | cs => (signedDigits? 10 cs).map Int.ofNat
      let bound := Int.ofNat (Nat.pow 2 63)
      n?.filter fun n => -bound ≤ n && n < bound
    else none

/-- The text of a node that can be a key: a scalar, or an alias for one. -/
def keyText? : Node → Option String
  | .scalar _ _ text => some (String.ofList text)
  | .alias target => target.keyText?
  | _ => none

mutual

/-- A node as a datum: every scalar stands for its text, and keys are scalars. -/
def toDatum : Node → Except Failure Datum
  | .scalar plain tag text => .ok (.scalar (some (String.ofList text)) (integer? plain tag text))
  | .sequence items => do return .list (← itemsToData items)
  | .mapping entries => do return .table (← entriesToData entries)
  | .alias target => target.toDatum

/-- The items of a sequence as data. -/
def itemsToData : List Node → Except Failure (List Datum)
  | [] => .ok []
  | item :: rest => do return (← toDatum item) :: (← itemsToData rest)

/-- The entries of a mapping as data. -/
def entriesToData : List (Node × Node) → Except Failure (List (String × Datum))
  | [] => .ok []
  | (key, value) :: rest => do
    match key.keyText? with
    | some text => return (text, ← toDatum value) :: (← entriesToData rest)
    | none => throw .keyNotScalar

end

/-! ## Following aliases

Aliases for nodes with aliases can make a short text stand for a huge document. So they may be
followed at most a hundred times as often as the text has parts. -/

mutual

/-- The number of parts that a node is written in: a collection has a start and an end. -/
def parts : Node → Nat
  | .scalar .. | .alias _ => 1
  | .sequence items => 2 + partsOfItems items
  | .mapping entries => 2 + partsOfEntries entries

/-- The number of parts of the items of a sequence. -/
def partsOfItems : List Node → Nat
  | [] => 0
  | item :: rest => parts item + partsOfItems rest

/-- The number of parts of the entries of a mapping. -/
def partsOfEntries : List (Node × Node) → Nat
  | [] => 0
  | (key, value) :: rest => parts key + parts value + partsOfEntries rest

end

mutual

/-- Follows the aliases of a node, `limit` of them at most. Answers how many more may follow. -/
def follow : Node → (limit : Nat) → Option Nat
  | .scalar .., limit => some limit
  | .alias _, 0 => none
  | .alias target, limit + 1 => target.follow limit
  | .sequence items, limit => followItems items limit
  | .mapping entries, limit => followEntries entries limit

/-- Follows the aliases in the items of a sequence. -/
def followItems : List Node → (limit : Nat) → Option Nat
  | [], limit => some limit
  | item :: rest, limit => do followItems rest (← follow item limit)

/-- Follows the aliases in the entries of a mapping. -/
def followEntries : List (Node × Node) → (limit : Nat) → Option Nat
  | [], limit => some limit
  | (key, value) :: rest, limit => do followEntries rest (← follow value (← follow key limit))

end

end Node

/-- The datum of the one document of a text. -/
def datum (text : String) : Except Failure Datum := do
  let node ← Node.ofText text
  if (node.follow (100 * node.parts)).isNone then throw .tooManyAliases
  node.toDatum

example : Node.plainInteger? "0x1F".toList = some 31 := by decide
example : Node.plainInteger? "010".toList = none := by decide
example : Node.plainInteger? "-0".toList = some 0 := by decide

end FieldSelection.Yaml
