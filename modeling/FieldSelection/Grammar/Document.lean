import FieldSelection.Grammar.Lexeme

/-!
# From tokens to a selection

```text
Document     ::= SelectionSet | Selection+
SelectionSet ::= "{" Selection* "}"
Selection    ::= Field | "..." "on" Name SelectionSet
Field        ::= Name (":" Name)? Arguments? SelectionSet?
Arguments    ::= "(" (Name ":" Value)* ")"
Value        ::= String | Number | "true" | "false" | "null" | Name
               | "[" Value* "]" | "{" (Name ":" Value)* "}"
```

A field with arguments needs a selection set. In `alias: field` the alias is dropped. Selections are
merged into their set one after another. At most `limit` selection sets, lists and objects may be
open at once; `room` is how many more may be opened.

Every reader takes at least one token, which bounds the recursion by the number of tokens.
-/

namespace FieldSelection

namespace Grammar

/-! ## 1. Places -/

/-- What the readers know besides the tokens: the offset of the end of the source, and how deep
    selections may nest. -/
structure Bounds where
  stop : Nat
  limit : Nat
  deriving DecidableEq, Repr

/-- The offset of the next token, or of the end. -/
def Bounds.here (b : Bounds) : List Token → Nat
  | [] => b.stop
  | t :: _ => t.offset

/-- The failure of an expectation at the next token. -/
def Bounds.expected (b : Bounds) (what : Expectation) (ts : List Token) : Failure :=
  ⟨.expected what (ts.head?.map Token.kind), b.here ts⟩

/-- The failure of opening one set, list or object too many. -/
def Bounds.tooDeep (b : Bounds) (ts : List Token) : Failure :=
  ⟨.tooDeep b.limit, b.here ts⟩

/-! ## 2. Names and marks -/

/-- A name. -/
def name (b : Bounds) (what : Expectation) : (ts : List Token) → Except Failure (Parsed String ts)
  | ⟨.name word, _⟩ :: rest => .ok ⟨word, rest, by simp⟩
  | ts => .error (b.expected what ts)

/-- A punctuation mark. -/
def mark (b : Bounds) (m : Mark) : (ts : List Token) → Except Failure (Parsed Unit ts)
  | [] => .error (b.expected (.mark m) [])
  | t :: rest =>
    if t.kind = .mark m then .ok ⟨(), rest, by simp⟩ else .error (b.expected (.mark m) (t :: rest))

/-- Whether the next token is a mark. -/
def startsWith (m : Mark) : List Token → Bool
  | [] => false
  | t :: _ => t.kind == .mark m

/-! ## 3. Literals -/

mutual

/-- A literal. -/
def literal (b : Bounds) (room : Nat) (ts : List Token) : Except Failure (Parsed Literal ts) :=
  match ts with
  | [] => .error (b.expected .value [])
  | t :: rest =>
    match t.kind with
    | .string s => .ok ⟨.string s, rest, by simp⟩
    | .number n => .ok ⟨.number n, rest, by simp⟩
    | .name word => .ok ⟨.ofWord word, rest, by simp⟩
    | .mark .openBracket =>
      match room with
      | 0 => .error (b.tooDeep (t :: rest))
      | room + 1 => do
        let items ← literals b room rest
        return ⟨.list items.value, items.rest, by have := items.shorter; simp; omega⟩
    | .mark .openBrace =>
      match room with
      | 0 => .error (b.tooDeep (t :: rest))
      | room + 1 => do
        let entries ← entries b room .objectField .closeBrace [] rest
        return ⟨.object entries.value, entries.rest, by have := entries.shorter; simp; omega⟩
    | _ => .error (b.expected .value (t :: rest))
  termination_by 2 * ts.length

/-- The items of a list up to its closing bracket. -/
def literals (b : Bounds) (room : Nat) (ts : List Token) :
    Except Failure (Parsed (List Literal) ts) :=
  match ts with
  | [] => .error (b.expected .value [])
  | t :: rest =>
    if t.kind = .mark .closeBracket then .ok ⟨[], rest, by simp⟩
    else do
      let item ← literal b room (t :: rest)
      have : item.rest.length < rest.length + 1 := item.shorter
      let items ← literals b room item.rest
      return ⟨item.value :: items.value, items.rest, by
        have := items.shorter
        simp only [List.length_cons]
        omega⟩
  termination_by 2 * ts.length + 1

/-- Entries `name: value` up to a closing mark, put into a table. -/
def entries (b : Bounds) (room : Nat) (what : Expectation) (close : Mark)
    (table : List (String × Literal)) (ts : List Token) :
    Except Failure (Parsed (List (String × Literal)) ts) :=
  match ts with
  | [] => .error (b.expected what [])
  | t :: rest =>
    if t.kind = .mark close then .ok ⟨table, rest, by simp⟩
    else do
      let key ← name b what (t :: rest)
      have : key.rest.length < rest.length + 1 := key.shorter
      let colon ← mark b .colon key.rest
      have := colon.shorter
      let value ← literal b room colon.rest
      have := value.shorter
      let more ← entries b room what close (Table.put key.value value.value table) value.rest
      return ⟨more.value, more.rest, by
        have := more.shorter
        simp only [List.length_cons]
        omega⟩
  termination_by 2 * ts.length + 1

end

/-! ## 4. Heads of selections -/

/-- The name of a field; an alias ahead of it is dropped. -/
def fieldName (b : Bounds) (ts : List Token) : Except Failure (Parsed String ts) := do
  let first ← name b .name ts
  if startsWith .colon first.rest then
    let colon ← mark b .colon first.rest
    let second ← name b .name colon.rest
    return ⟨second.value, second.rest, by
      have := first.shorter
      have := colon.shorter
      have := second.shorter
      omega⟩
  else return first

/-- `on` and the name of a type. -/
def typeCondition (b : Bounds) (ts : List Token) : Except Failure (Parsed String ts) :=
  match ts with
  | [] => .error (b.expected .onKeyword [])
  | t :: rest =>
    if t.kind = .name "on" then do
      let type ← name b .typeName rest
      return ⟨type.value, type.rest, by have := type.shorter; simp; omega⟩
    else .error (b.expected .onKeyword (t :: rest))

/-- The arguments of a field between parentheses, if it has any. -/
def arguments? (b : Bounds) (room : Nat) (ts : List Token) :
    Except Failure (Option (Parsed (List (String × Literal)) ts)) := do
  if startsWith .openParen ts then
    let paren ← mark b .openParen ts
    let table ← entries b room .argumentName .closeParen [] paren.rest
    return some ⟨table.value, table.rest, by
      have := paren.shorter
      have := table.shorter
      omega⟩
  else return none

/-! ## 5. Selections -/

mutual

/-- One selection, merged into the set that it stands in. -/
def selection (b : Bounds) (room : Nat) (parent : Selection) (ts : List Token) :
    Except Failure (Parsed Selection ts) :=
  match ts with
  | ⟨.spread, _⟩ :: rest => do
    let type ← typeCondition b rest
    have := type.shorter
    let set ← selectionSet b room type.rest
    return ⟨parent.mergeItem (.onType type.value) (.node set.value), set.rest, by
      have := set.shorter
      simp
      omega⟩
  | ts => do
    let field ← fieldName b ts
    have := field.shorter
    match ← arguments? b room field.rest with
    | none =>
      if startsWith .openBrace field.rest then
        let set ← selectionSet b room field.rest
        return ⟨parent.mergeItem (.field field.value) (.node set.value), set.rest, by
          have := set.shorter
          omega⟩
      else return ⟨parent.mergeItem (.field field.value) .leaf, field.rest, field.shorter⟩
    | some arguments =>
      have := arguments.shorter
      if startsWith .openBrace arguments.rest then
        let set ← selectionSet b room arguments.rest
        let node := set.value.setArguments arguments.value
        return ⟨parent.mergeItem (.field field.value) (.node node), set.rest, by
          have := set.shorter
          omega⟩
      else throw ⟨.argumentsWithoutSelection field.value, b.here ts⟩
  termination_by 2 * ts.length

/-- A selection set between braces. -/
def selectionSet (b : Bounds) (room : Nat) (ts : List Token) :
    Except Failure (Parsed Selection ts) :=
  match room with
  | 0 => .error (b.tooDeep ts)
  | room + 1 => do
    let brace ← mark b .openBrace ts
    have := brace.shorter
    let set ← selectionsToBrace b room .empty brace.rest
    return ⟨set.value, set.rest, by have := set.shorter; omega⟩
  termination_by 2 * ts.length

/-- The selections of a set up to its closing brace, merged into those before them. -/
def selectionsToBrace (b : Bounds) (room : Nat) (parent : Selection) (ts : List Token) :
    Except Failure (Parsed Selection ts) :=
  match ts with
  | [] => .error (b.expected (.mark .closeBrace) [])
  | t :: rest =>
    if t.kind = .mark .closeBrace then .ok ⟨parent, rest, by simp⟩
    else do
      let next ← selection b room parent (t :: rest)
      have : next.rest.length < rest.length + 1 := next.shorter
      let set ← selectionsToBrace b room next.value next.rest
      return ⟨set.value, set.rest, by
        have := set.shorter
        simp only [List.length_cons]
        omega⟩
  termination_by 2 * ts.length + 1

end

/-- Selections up to the end of the source, merged into those before them. -/
def selectionsToEnd (b : Bounds) (parent : Selection) (ts : List Token) :
    Except Failure Selection :=
  match ts with
  | [] => .ok parent
  | t :: rest => do
    let next ← selection b b.limit parent (t :: rest)
    have : next.rest.length < rest.length + 1 := next.shorter
    selectionsToEnd b next.value next.rest
  termination_by ts.length

/-! ## 6. Documents -/

/-- A whole document: a set between braces and nothing after it, or selections without braces. It
    selects something. -/
def document (b : Bounds) (ts : List Token) : Except Failure Selection := do
  if ts.isEmpty then throw ⟨.emptySource, 0⟩
  let s ←
    if startsWith .openBrace ts then do
      let set ← selectionSet b b.limit ts
      match set.rest with
      | [] => pure set.value
      | t :: _ => throw ⟨.trailingTokens t.kind, t.offset⟩
    else selectionsToEnd b .empty ts
  if s.isEmpty then throw ⟨.emptySelection, 0⟩
  return s

/-- How many selection sets, lists and objects may be open at once unless another limit is given. -/
def defaultLimit : Nat := 100

end Grammar

/-- The selection that a text describes, with at most `limit` sets, lists and objects open at
    once. -/
def Selection.parseWithin (limit : Nat) (source : String) : Except GrammarError Selection :=
  let cs := source.toList
  let result := do
    let ts ← Grammar.tokens 0 cs
    Grammar.document ⟨Text.bytes cs, limit⟩ ts
  result.mapError (GrammarError.ofFailure cs)

/-- The selection that a text describes. -/
def Selection.parse (source : String) : Except GrammarError Selection :=
  Selection.parseWithin Grammar.defaultLimit source

end FieldSelection
