import FieldSelection.Grammar.Document

/-!
# Derivations of the selection grammar

What the grammar derives, as trees with one constructor for each production:

* `Value`, `Phrase` and `Document` are the derivations. A phrase is a selection of a set: a field
  alone, a field with a set, or a set for the values of one type. Only a field with a set has
  arguments, so no tree stands for arguments without a set;
* `kinds` are the tokens that a derivation derives, from left to right;
* `depth` counts how many sets, lists and objects are open at once;
* `literal`, `entry` and `selection` are what a derivation means. The selections of a set are merged
  one after another (`Selection.mergeAll`), and of the entries under one name the last one counts,
  at the place of the first.
-/

namespace FieldSelection

/-- A selection with items merged into it, from first to last. -/
def Selection.mergeAll (s : Selection) (es : List (Key × Item)) : Selection :=
  es.foldl (fun s e => s.mergeItem e.1 e.2) s

theorem Selection.mergeAll_eq (s : Selection) (es : List (Key × Item)) :
    s.mergeAll es = s.withItems (mergeItems s.items es) :=
  foldl_mergeItem s es

theorem Selection.mergeAll_append (s : Selection) (es fs : List (Key × Item)) :
    s.mergeAll (es ++ fs) = (s.mergeAll es).mergeAll fs :=
  List.foldl_append

@[simp] theorem Selection.arguments_mergeAll (s : Selection) (es : List (Key × Item)) :
    (s.mergeAll es).arguments = s.arguments := by
  rw [mergeAll_eq, arguments_withItems]

namespace Grammar

/-! ## 1. Trees -/

/-- A value. -/
inductive Value where
  | string (s : String)
  | number (n : Numeral)
  /-- A bare word; `true`, `false` and `null` are words, too. -/
  | word (text : String)
  | list (items : List Value)
  | object (entries : List (String × Value))

/-- A selection in a set. -/
inductive Phrase where
  | leaf (alias? : Option String) (name : String)
  | nested (alias? : Option String) (name : String)
      (arguments? : Option (List (String × Value))) (set : List Phrase)
  | fragment (type : String) (set : List Phrase)

/-- A whole document. -/
inductive Document where
  | braced (set : List Phrase)
  | bare (set : List Phrase)

/-- The selections at the top. -/
def Document.set : Document → List Phrase
  | .braced set => set
  | .bare set => set

/-! ## 2. Tokens -/

mutual

/-- The tokens of a value. -/
def Value.kinds : Value → List Token.Kind
  | .string s => [.string s]
  | .number n => [.number n]
  | .word text => [.name text]
  | .list items => .mark .openBracket :: (Value.itemsKinds items ++ [.mark .closeBracket])
  | .object entries => .mark .openBrace :: (Value.entriesKinds entries ++ [.mark .closeBrace])

/-- The tokens of the items of a list. -/
def Value.itemsKinds : List Value → List Token.Kind
  | [] => []
  | item :: rest => item.kinds ++ Value.itemsKinds rest

/-- The tokens of entries. -/
def Value.entriesKinds : List (String × Value) → List Token.Kind
  | [] => []
  | (name, value) :: rest =>
    .name name :: .mark .colon :: (value.kinds ++ Value.entriesKinds rest)

end

/-- The tokens of the name of a field, with the alias ahead of it. -/
def headKinds : (alias? : Option String) → (name : String) → List Token.Kind
  | none, name => [.name name]
  | some first, name => [.name first, .mark .colon, .name name]

/-- The tokens of arguments, if there are any. -/
def argumentsKinds : Option (List (String × Value)) → List Token.Kind
  | none => []
  | some entries => .mark .openParen :: (Value.entriesKinds entries ++ [.mark .closeParen])

mutual

/-- The tokens of a selection. -/
def Phrase.kinds : Phrase → List Token.Kind
  | .leaf alias? name => headKinds alias? name
  | .nested alias? name arguments? set =>
    headKinds alias? name ++ (argumentsKinds arguments? ++
      .mark .openBrace :: (Phrase.setKinds set ++ [.mark .closeBrace]))
  | .fragment type set =>
    .spread :: .name "on" :: .name type ::
      .mark .openBrace :: (Phrase.setKinds set ++ [.mark .closeBrace])

/-- The tokens of the selections of a set. -/
def Phrase.setKinds : List Phrase → List Token.Kind
  | [] => []
  | phrase :: rest => phrase.kinds ++ Phrase.setKinds rest

end

/-- The tokens of a document. -/
def Document.kinds : Document → List Token.Kind
  | .braced set => .mark .openBrace :: (Phrase.setKinds set ++ [.mark .closeBrace])
  | .bare set => Phrase.setKinds set

/-! ## 3. Depth -/

mutual

/-- How many lists and objects of a value are open at once. -/
def Value.depth : Value → Nat
  | .list items => Value.itemsDepth items + 1
  | .object entries => Value.entriesDepth entries + 1
  | _ => 0

/-- The greatest depth of an item. -/
def Value.itemsDepth : List Value → Nat
  | [] => 0
  | item :: rest => max item.depth (Value.itemsDepth rest)

/-- The greatest depth of the value of an entry. -/
def Value.entriesDepth : List (String × Value) → Nat
  | [] => 0
  | (_, value) :: rest => max value.depth (Value.entriesDepth rest)

end

/-- The depth of arguments, if there are any. -/
def argumentsDepth : Option (List (String × Value)) → Nat
  | none => 0
  | some entries => Value.entriesDepth entries

mutual

/-- How many sets, lists and objects of a selection are open at once. -/
def Phrase.depth : Phrase → Nat
  | .leaf _ _ => 0
  | .nested _ _ arguments? set => max (argumentsDepth arguments?) (Phrase.setDepth set + 1)
  | .fragment _ set => Phrase.setDepth set + 1

/-- The greatest depth of a selection of a set. -/
def Phrase.setDepth : List Phrase → Nat
  | [] => 0
  | phrase :: rest => max phrase.depth (Phrase.setDepth rest)

end

/-- How many sets, lists and objects of a document are open at once. -/
def Document.depth : Document → Nat
  | .braced set => Phrase.setDepth set + 1
  | .bare set => Phrase.setDepth set

/-! ## 4. Meaning -/

mutual

/-- The literal of a value. -/
def Value.literal : Value → Literal
  | .string s => .string s
  | .number n => .number n
  | .word text => .ofWord text
  | .list items => .list (Value.literals items)
  | .object entries => .object (Table.ofEntries (Value.entries entries))

/-- The literals of the items of a list. -/
def Value.literals : List Value → List Literal
  | [] => []
  | item :: rest => item.literal :: Value.literals rest

/-- The literals of entries under their names. -/
def Value.entries : List (String × Value) → List (String × Literal)
  | [] => []
  | (name, value) :: rest => (name, value.literal) :: Value.entries rest

end

mutual

/-- What a selection adds to its set. -/
def Phrase.entry : Phrase → Key × Item
  | .leaf _ name => (.field name, .leaf)
  | .nested _ name none set => (.field name, .node (Selection.empty.mergeAll (Phrase.entries set)))
  | .nested _ name (some arguments) set =>
    (.field name,
      .node ((Selection.empty.mergeAll (Phrase.entries set)).setArguments
        (Value.entries arguments)))
  | .fragment type set => (.onType type, .node (Selection.empty.mergeAll (Phrase.entries set)))

/-- What the selections of a set add to it. -/
def Phrase.entries : List Phrase → List (Key × Item)
  | [] => []
  | phrase :: rest => phrase.entry :: Phrase.entries rest

end

/-- The selection that a document describes. -/
def Document.selection (d : Document) : Selection :=
  Selection.empty.mergeAll (Phrase.entries d.set)

end Grammar

end FieldSelection
