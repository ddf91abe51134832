import FieldSelection.Proofs.Grammar.Numerals
import FieldSelection.Proofs.Grammar.Strings
import FieldSelection.Selection.Layout

/-!
# What the text of a selection says

* `Spelled` selections have identifiers for names and words that mean nothing else; only numbers and
  strings stay free.
* `scan` is what their text says, laid out along the tree: the mark for all scalar fields is no
  token, so nothing with that mark is a text of tokens, and a number says whatever its text says.
* The main statement is that the text of a spelled selection says just that (`kinds?_text`).
-/

namespace FieldSelection

open Grammar

/-! ## 1. Spelled selections -/

mutual

/-- Every name in a literal is an identifier, and every word is one that is read as a word. -/
def Literal.Spelled : Literal → Prop
  | .enum word =>
    isIdentifier word.toList = true ∧ word ≠ "true" ∧ word ≠ "false" ∧ word ≠ "null"
  | .list items => Literal.ItemsSpelled items
  | .object entries => Literal.EntriesSpelled entries
  | _ => True

/-- The literals of a list are spelled. -/
def Literal.ItemsSpelled : List Literal → Prop
  | [] => True
  | item :: rest => Literal.Spelled item ∧ Literal.ItemsSpelled rest

/-- The names and the literals of entries are spelled. -/
def Literal.EntriesSpelled : List (String × Literal) → Prop
  | [] => True
  | (name, value) :: rest =>
    isIdentifier name.toList = true ∧ Literal.Spelled value ∧ Literal.EntriesSpelled rest

end

mutual

/-- Every name in a selection is an identifier, and every word is one that is read as a word. -/
def Selection.Spelled : Selection → Prop
  | ⟨arguments, _, items⟩ => Literal.EntriesSpelled arguments ∧ Selection.ItemsSpelled items

/-- The keys and the selections of items are spelled. -/
def Selection.ItemsSpelled : List (Key × Item) → Prop
  | [] => True
  | (key, item) :: rest =>
    isIdentifier key.name.toList = true ∧ Item.Spelled item ∧ Selection.ItemsSpelled rest

/-- The selection of a node is spelled. -/
def Item.Spelled : Item → Prop
  | .leaf => True
  | .node selection => Selection.Spelled selection

end

/-! ## 2. Tokens along the tree -/

namespace Grammar

/-- What a text between two marks says. -/
def enclosed (before : Mark) (ks : Option (List Token.Kind)) (after : Mark) :
    Option (List Token.Kind) :=
  andThen (some [.mark before]) (andThen ks (some [.mark after]))

end Grammar

mutual

/-- What the text of a literal says. -/
def Literal.scan : Literal → Option (List Token.Kind)
  | .string s => some [.string s]
  | .number n => kinds? n.chars
  | .boolean b => some [.name (if b then "true" else "false")]
  | .null => some [.name "null"]
  | .enum word => some [.name word]
  | .list items => enclosed .openBracket (Literal.itemsScan items) .closeBracket
  | .object entries => enclosed .openBrace (Literal.entriesScan entries) .closeBrace

/-- What the texts of the items of a list say. -/
def Literal.itemsScan : List Literal → Option (List Token.Kind)
  | [] => some []
  | item :: rest => andThen (Literal.scan item) (Literal.itemsScan rest)

/-- What the texts of entries say. -/
def Literal.entriesScan : List (String × Literal) → Option (List Token.Kind)
  | [] => some []
  | (name, value) :: rest =>
    andThen (andThen (some [.name name]) (andThen (some [.mark .colon]) (Literal.scan value)))
      (Literal.entriesScan rest)

end

/-- What the text of a key says. -/
def Key.scan : Key → List Token.Kind
  | .field name => [.name name]
  | .onType name => [.spread, .name "on", .name name]

/-- What the text of arguments says. -/
def argumentsScan (arguments : List (String × Literal)) : Option (List Token.Kind) :=
  if arguments.isEmpty then some []
  else enclosed .openParen (Literal.entriesScan arguments) .closeParen

mutual

/-- What the text of a selection says between its braces. -/
def Selection.scan : Selection → Option (List Token.Kind)
  | ⟨_, allScalars, items⟩ =>
    andThen (Selection.itemsScan items) (if allScalars then none else some [])

/-- What the text of items says. -/
def Selection.itemsScan : List (Key × Item) → Option (List Token.Kind)
  | [] => some []
  | (key, item) :: rest => andThen (Item.scan key item) (Selection.itemsScan rest)

/-- What the text of the item under a key says. -/
def Item.scan (key : Key) : Item → Option (List Token.Kind)
  | .leaf => some key.scan
  | .node selection =>
    andThen (andThen (some key.scan) (argumentsScan selection.arguments))
      (enclosed .openBrace (Selection.scan selection) .closeBrace)

end

/-! ## 3. Pieces of a line -/

namespace Grammar

/-- A piece of text says certain tokens, wherever no token goes on after it. -/
def Says (text : List Char) (ks : Option (List Token.Kind)) : Prop :=
  ∀ rest, Separated rest → kinds? (text ++ rest) = andThen ks (kinds? rest)

theorem andThen_assoc (ks ls ms : Option (List Token.Kind)) :
    andThen (andThen ks ls) ms = andThen ks (andThen ls ms) := by
  cases ks <;> cases ls <;> cases ms <;> simp [andThen]

theorem andThen_some_nil (ks : Option (List Token.Kind)) : andThen ks (some []) = ks := by
  cases ks <;> simp [andThen]

theorem some_singleton_andThen (k : Token.Kind) (ks : Option (List Token.Kind)) :
    andThen (some [k]) ks = ks.map (k :: ·) := by
  cases ks <;> rfl

theorem separated_cons {c : Char} {cs : List Char} (h : isNameChar c = false) (h' : c ≠ '.') :
    Separated (c :: cs) := by
  intro d hd
  cases hd
  exact ⟨h, h'⟩

theorem Separated.append {cs rest : List Char} (h : Separated cs) (h' : Separated rest) :
    Separated (cs ++ rest) := by
  cases cs with
  | nil => exact h'
  | cons c cs => exact h

theorem says_nil : Says [] (some []) :=
  fun rest _ => (some_nil_andThen (kinds? rest)).symm

theorem says_quoted (s : String) : Says (Text.quoted s.toList) (some [.string s]) :=
  fun rest _ => (kinds?_quoted s rest).trans (some_singleton_andThen _ _).symm

theorem says_name {w : String} (h : isIdentifier w.toList = true) :
    Says w.toList (some [.name w]) :=
  fun _ hrest => (kinds?_name h hrest).trans (some_singleton_andThen _ _).symm

theorem says_number (n : Numeral) : Says n.chars (kinds? n.chars) :=
  fun _ hrest => kinds?_chars n hrest

section Pieces

variable {text more : List Char} {ks ls : Option (List Token.Kind)}

/-- One piece after another. -/
theorem Says.append (h : Says text ks) (h' : Says more ls) (hmore : Separated more) :
    Says (text ++ more) (andThen ks ls) := by
  intro rest hrest
  rw [List.append_assoc, h _ (hmore.append hrest), h' rest hrest, andThen_assoc]

/-- A piece after a mark. -/
theorem Says.mark (m : Mark) (h : Says text ks) :
    Says (m.char :: text) (andThen (some [.mark m]) ks) := by
  intro rest hrest
  rw [List.cons_append, kinds?_mark, h rest hrest, andThen_assoc, some_singleton_andThen]

theorem says_mark (m : Mark) : Says [m.char] (some [.mark m]) :=
  says_nil.mark m

/-- A piece after a blank or a comma. -/
theorem Says.blank {c : Char} (hc : (Text.isBlank c || c == ',') = true) (h : Says text ks) :
    Says (c :: text) ks :=
  fun rest hrest => (kinds?_blank _ hc).trans (h rest hrest)

/-- A piece between two marks. -/
theorem Says.enclosed (before after : Mark) (h : Says text ks)
    (hafter : Separated [after.char]) :
    Says (before.char :: text ++ [after.char]) (enclosed before ks after) :=
  (h.append (says_mark after) hafter).mark before

/-- Pieces with a comma and a blank between them. -/
theorem Says.intercalate {texts : List (List Char)} (h : Says text ks)
    (h' : Says (List.intercalate [',', ' '] texts) ls) :
    Says (List.intercalate [',', ' '] (text :: texts)) (andThen ks ls) := by
  cases texts with
  | nil =>
    have hnil : kinds? [] = some [] := kinds?_of_gap rfl
    have hls : some [] = ls := by
      have hsay : kinds? [] = andThen ls (kinds? []) := h' [] (by simp [Separated])
      rw [hnil, andThen_some_nil] at hsay
      exact hsay
    have hone : List.intercalate [',', ' '] [text] = text := List.append_nil text
    rw [hone, ← hls, andThen_some_nil]
    exact h
  | cons next texts =>
    exact h.append ((h'.blank (by decide)).blank (by decide))
      (separated_cons (by decide) (by decide))

end Pieces

end Grammar

/-! ## 4. Literals -/

mutual

/-- The text of a literal. -/
theorem Literal.says_chars : ∀ l : Literal, l.Spelled → Says l.chars l.scan
  | .string s, _ => says_quoted s
  | .number n, _ => says_number n
  | .boolean true, _ => says_name (w := "true") (by decide)
  | .boolean false, _ => says_name (w := "false") (by decide)
  | .null, _ => says_name (w := "null") (by decide)
  | .enum word, h => says_name (w := word) h.1
  | .list items, h =>
      (Literal.says_itemsChars items h).enclosed .openBracket .closeBracket
        (separated_cons (by decide) (by decide))
  | .object entries, h =>
      (Literal.says_entriesChars entries h).enclosed .openBrace .closeBrace
        (separated_cons (by decide) (by decide))

/-- The texts of the items of a list. -/
theorem Literal.says_itemsChars : ∀ items : List Literal, Literal.ItemsSpelled items →
    Says (List.intercalate [',', ' '] (Literal.itemsChars items)) (Literal.itemsScan items)
  | [], _ => says_nil
  | item :: rest, h =>
      (Literal.says_chars item h.1).intercalate (Literal.says_itemsChars rest h.2)

/-- The texts of entries. -/
theorem Literal.says_entriesChars : ∀ entries : List (String × Literal),
    Literal.EntriesSpelled entries →
      Says (List.intercalate [',', ' '] (Literal.entriesChars entries))
        (Literal.entriesScan entries)
  | [], _ => says_nil
  | (name, value) :: rest, h => by
      have hvalue := (Literal.says_chars value h.2.1).blank (c := ' ') (by decide)
      have hentry := (says_name h.1).append (hvalue.mark .colon)
        (separated_cons (by decide) (by decide))
      exact hentry.intercalate (Literal.says_entriesChars rest h.2.2)

end

/-! ## 5. Lines -/

namespace Grammar

theorem kinds?_indentation (level : Nat) (cs : List Char) :
    kinds? (indentation level ++ cs) = kinds? cs := by
  unfold indentation
  induction 2 * level with
  | zero => rfl
  | succ n ih => rw [List.replicate_succ, List.cons_append, kinds?_blank _ (by decide), ih]

/-- Lines say certain tokens, whatever follows them. -/
def LinesSay (ls : List Line) (ks : Option (List Token.Kind)) : Prop :=
  ∀ rest, kinds? (ls.flatMap Line.chars ++ rest) = andThen ks (kinds? rest)

theorem linesSay_nil : LinesSay [] (some []) :=
  fun rest => (some_nil_andThen (kinds? rest)).symm

section Lines

variable {ls ms : List Line} {ks js : Option (List Token.Kind)}

theorem LinesSay.append (h : LinesSay ls ks) (h' : LinesSay ms js) :
    LinesSay (ls ++ ms) (andThen ks js) := by
  intro rest
  rw [List.flatMap_append, List.append_assoc, h, h', andThen_assoc]

/-- A line says what stands in it. -/
theorem linesSay_one {l : Line} (h : Says l.content ks) : LinesSay [l] ks := by
  intro rest
  have hbreak : Separated ('\n' :: rest) := separated_cons (by decide) (by decide)
  rw [List.flatMap_singleton, Line.chars, List.append_assoc, List.append_assoc,
    kinds?_indentation, List.singleton_append, h _ hbreak, kinds?_blank _ (by decide)]

end Lines

theorem kinds?_star (cs : List Char) : kinds? ('*' :: cs) = none := by
  rw [kinds?_cons _ (by decide)]
  rfl

/-- The mark for all scalar fields is no token. -/
theorem linesSay_star (level : Nat) : LinesSay [⟨level, ['*']⟩] none :=
  linesSay_one fun rest _ => kinds?_star rest

end Grammar

/-- The text of a key. -/
theorem Key.says_heading (key : Key) (h : isIdentifier key.name.toList = true) :
    Says key.heading (some key.scan) := by
  cases key with
  | field name => exact says_name h
  | onType name =>
    intro rest hrest
    have hname := (says_name h).blank (c := ' ') (by decide)
    have hon := (says_name (w := "on") (by decide)).append hname
      (separated_cons (by decide) (by decide))
    have hall := (hon.blank (c := ' ') (by decide)) rest hrest
    refine (kinds?_spread _).trans ?_
    rw [← some_singleton_andThen]
    exact (congrArg _ hall).trans (andThen_assoc _ _ _).symm

/-- The text of arguments. -/
theorem says_argumentsChars {arguments : List (String × Literal)}
    (h : Literal.EntriesSpelled arguments) :
    Says (argumentsChars arguments) (argumentsScan arguments) := by
  unfold argumentsChars argumentsScan
  split
  · exact says_nil
  · exact (Literal.says_entriesChars arguments h).enclosed .openParen .closeParen
      (separated_cons (by decide) (by decide))

theorem separated_argumentsChars (arguments : List (String × Literal)) :
    Separated (argumentsChars arguments) := by
  unfold argumentsChars
  split
  · simp [Separated]
  · exact separated_cons (by decide) (by decide)

mutual

/-- The lines of a selection. -/
theorem Selection.linesSay_lines (level : Nat) : ∀ s : Selection, s.Spelled →
    LinesSay (s.lines level) s.scan
  | ⟨_, allScalars, items⟩, h => by
      refine (Selection.linesSay_itemsLines level items h.2).append ?_
      cases allScalars with
      | true => exact linesSay_star level
      | false => exact linesSay_nil

/-- The lines of items. -/
theorem Selection.linesSay_itemsLines (level : Nat) : ∀ items : List (Key × Item),
    Selection.ItemsSpelled items →
      LinesSay (Selection.itemsLines level items) (Selection.itemsScan items)
  | [], _ => linesSay_nil
  | (key, item) :: rest, h =>
      (Item.linesSay_lines level key item h.1 h.2.1).append
        (Selection.linesSay_itemsLines level rest h.2.2)

/-- The lines of an item. -/
theorem Item.linesSay_lines (level : Nat) (key : Key) : ∀ item : Item,
    isIdentifier key.name.toList = true → item.Spelled →
      LinesSay (Item.lines level key item) (Item.scan key item)
  | .leaf, hkey, _ => linesSay_one (key.says_heading hkey)
  | .node ⟨arguments, allScalars, items⟩, hkey, h => by
      have hhead := (key.says_heading hkey).append (says_argumentsChars h.1)
        (separated_argumentsChars arguments)
      have hbrace := (says_mark .openBrace).blank (c := ' ') (by decide)
      have hopen := linesSay_one (l := openingLine level key arguments)
        (hhead.append hbrace (separated_cons (by decide) (by decide)))
      have hset := Selection.linesSay_lines (level + 1) ⟨arguments, allScalars, items⟩ h
      have hclose := linesSay_one (l := closingLine level) (says_mark .closeBrace)
      have hall := (hopen.append hset).append hclose
      rw [andThen_assoc, andThen_assoc] at hall
      exact hall

end

/-- **What the text of a spelled selection says.** -/
theorem Selection.kinds?_text (s : Selection) (h : s.Spelled) :
    kinds? s.text.toList = enclosed .openBrace s.scan .closeBrace := by
  have hnil : kinds? [] = some [] := kinds?_of_gap rfl
  have hclose : kinds? (indentation 0 ++ ['}']) = some [.mark .closeBrace] := by
    refine (kinds?_indentation 0 _).trans ((kinds?_mark .closeBrace []).trans ?_)
    rw [hnil]
    rfl
  rw [text, indented, String.toList_ofList, Line.braced, List.cons_append, List.cons_append,
    List.append_assoc]
  refine (kinds?_mark .openBrace _).trans ?_
  rw [List.cons_append, kinds?_blank _ (by decide), s.linesSay_lines 1 h, hclose,
    ← some_singleton_andThen]
  rfl

end FieldSelection
