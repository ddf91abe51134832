import FieldSelection.Proofs.Grammar.Strings
import FieldSelection.Proofs.Number.Digits
import FieldSelection.Selection.Layout

/-!
# Texts further in

The text of a selection at a level of indentation is its text at level zero with the blanks of the
level after every line break (`indented_eq_indentBreaks`). A line that is laid out keeps its content
at every level, so all that has to be known is that no content holds a line break of its own:

* the names and the bare words of a selection (`words`) are written as they are, and must not hold
  one;
* numbers hold none, and in a string every line break is escaped (`newline_notMem_quoted`).
-/

namespace FieldSelection

/-- A text with the blanks of `n` levels after every line break. -/
def indentBreaks (n : Nat) (cs : List Char) : List Char :=
  cs.flatMap fun c => if c = '\n' then '\n' :: List.replicate (2 * n) ' ' else [c]

/-! ## 1. Lines without a break of their own -/

section Lines

variable {n : Nat} {cs ds : List Char}

theorem indentBreaks_append : indentBreaks n (cs ++ ds) = indentBreaks n cs ++ indentBreaks n ds :=
  List.flatMap_append

/-- A text of one line stays as it is. -/
theorem indentBreaks_of_notMem (h : '\n' ∉ cs) : indentBreaks n cs = cs := by
  induction cs with
  | nil => rfl
  | cons c cs ih =>
    have hc : c ≠ '\n' := fun e => h (e ▸ List.mem_cons_self)
    have hcs : '\n' ∉ cs := fun hmem => h (List.mem_cons_of_mem c hmem)
    have hone : indentBreaks n [c] = [c] := by simp [indentBreaks, hc]
    rw [← List.singleton_append, indentBreaks_append, hone, ih hcs]

theorem indentation_append (m n : Nat) : indentation m ++ indentation n = indentation (n + m) := by
  rw [indentation, indentation, indentation, List.replicate_append_replicate, ← Nat.mul_add,
    Nat.add_comm]

/-- Blanks after the break that ends a line. -/
theorem indentBreaks_chars {l : Line} (h : '\n' ∉ l.content) :
    indentBreaks n l.chars = l.chars ++ indentation n := by
  have hbreak : indentBreaks n ['\n'] = '\n' :: indentation n := by simp [indentBreaks, indentation]
  have hblanks : '\n' ∉ indentation l.level := notMem_indentation (by decide) l.level
  rw [Line.chars, indentBreaks_append, indentBreaks_append, indentBreaks_of_notMem hblanks,
    indentBreaks_of_notMem h, hbreak, List.append_assoc _ ['\n'], List.singleton_append]

/-- The blanks of a line further in stand ahead of the blanks that it has anyway. -/
theorem chars_shift (l : Line) : (l.shift n).chars = indentation n ++ l.chars := by
  simp only [Line.chars, Line.shift, ← indentation_append n l.level, List.append_assoc]

/-- Blanks ahead of the first line and after every break are lines further in, and the blanks ahead
    of what comes after them. -/
theorem indentation_indentBreaks {ls : List Line} (h : ∀ l ∈ ls, '\n' ∉ l.content) :
    indentation n ++ indentBreaks n (ls.flatMap Line.chars) =
      (ls.map (Line.shift n)).flatMap Line.chars ++ indentation n := by
  induction ls with
  | nil => exact List.append_nil _
  | cons l ls ih =>
    obtain ⟨hl, hls⟩ := List.forall_mem_cons.mp h
    calc indentation n ++ indentBreaks n ((l :: ls).flatMap Line.chars)
      _ = (indentation n ++ l.chars) ++
            (indentation n ++ indentBreaks n (ls.flatMap Line.chars)) := by
        rw [List.flatMap_cons, indentBreaks_append, indentBreaks_chars hl]
        simp only [List.append_assoc]
      _ = (l.shift n).chars ++ ((ls.map (Line.shift n)).flatMap Line.chars ++ indentation n) := by
        rw [chars_shift, ih hls]
      _ = ((l :: ls).map (Line.shift n)).flatMap Line.chars ++ indentation n := by
        rw [List.map_cons, List.flatMap_cons, List.append_assoc]

/-- Braces around lines further in. -/
theorem indentBreaks_braced {ls : List Line} (level : Nat) (h : ∀ l ∈ ls, '\n' ∉ l.content) :
    indentBreaks n (Line.braced level ls) = Line.braced (level + n) (ls.map (Line.shift n)) := by
  have hopen : indentBreaks n ['{', '\n'] = ['{', '\n'] ++ indentation n := by
    simp [indentBreaks, indentation]
  have hclose : indentBreaks n (indentation level ++ ['}']) = indentation level ++ ['}'] :=
    indentBreaks_of_notMem (by simp [notMem_indentation])
  have hsplit : ∀ (level : Nat) (ls : List Line), Line.braced level ls =
      ['{', '\n'] ++ (ls.flatMap Line.chars ++ (indentation level ++ ['}'])) := by
    simp [Line.braced]
  calc indentBreaks n (Line.braced level ls)
    _ = ['{', '\n'] ++ ((indentation n ++ indentBreaks n (ls.flatMap Line.chars)) ++
          (indentation level ++ ['}'])) := by
      rw [hsplit, indentBreaks_append, indentBreaks_append, hopen, hclose]
      simp only [List.append_assoc]
    _ = ['{', '\n'] ++ ((ls.map (Line.shift n)).flatMap Line.chars ++
          (indentation (level + n) ++ ['}'])) := by
      rw [indentation_indentBreaks h, ← indentation_append n level]
      simp only [List.append_assoc]
    _ = Line.braced (level + n) (ls.map (Line.shift n)) := (hsplit _ _).symm

end Lines

/-! ## 2. Words -/

mutual

/-- The names and the bare words in a literal. -/
def Literal.words : Literal → List String
  | .enum word => [word]
  | .list items => Literal.itemsWords items
  | .object entries => Literal.entriesWords entries
  | _ => []

/-- The words in the items of a list. -/
def Literal.itemsWords : List Literal → List String
  | [] => []
  | item :: rest => Literal.words item ++ Literal.itemsWords rest

/-- The names of entries, and the words in their values. -/
def Literal.entriesWords : List (String × Literal) → List String
  | [] => []
  | (name, value) :: rest => name :: (Literal.words value ++ Literal.entriesWords rest)

end

mutual

/-- The names of fields, types, arguments and entries in a selection, and its bare words. -/
def Selection.words : Selection → List String
  | ⟨arguments, _, items⟩ => Literal.entriesWords arguments ++ Selection.itemsWords items

/-- The names of keys, and the words in their items. -/
def Selection.itemsWords : List (Key × Item) → List String
  | [] => []
  | (key, item) :: rest => key.name :: (Item.words item ++ Selection.itemsWords rest)

/-- The words in the selection of a node. -/
def Item.words : Item → List String
  | .leaf => []
  | .node selection => Selection.words selection

end

/-! ## 3. Texts of literals -/

theorem Grammar.HexDigit.ne_newline {c : Char} {v : Nat} (h : HexDigit c v) : c ≠ '\n' := by
  rintro rfl
  rcases h with h | h
  · exact absurd (List.mem_of_getElem? h) (by decide)
  · exact absurd (List.mem_of_getElem? h) (by decide)

theorem Grammar.HexUnit.newline_notMem {ds : List Char} {v : Nat} (h : HexUnit ds v) :
    '\n' ∉ ds := by
  cases h with
  | digits ha hb hc hd =>
    simp [ha.ne_newline.symm, hb.ne_newline.symm, hc.ne_newline.symm, hd.ne_newline.symm]

/-- No item of a string holds a line break, not even the one that stands for it. -/
theorem Grammar.StringItem.newline_notMem {item : List Char} {c : Char} (h : StringItem item c) :
    '\n' ∉ item := by
  cases h with
  | raw _ _ hline => simp [hline.symm]
  | unit hds => simp [hds.newline_notMem]
  | pair hds hes => simp [hds.newline_notMem, hes.newline_notMem]
  | _ => decide

/-- A string is written on one line, whatever stands in it. -/
theorem newline_notMem_quoted (cs : List Char) : '\n' ∉ Text.quoted cs := by
  have hbody : '\n' ∉ cs.flatMap Text.encodeChar := by
    intro h
    obtain ⟨c, -, hc⟩ := List.mem_flatMap.mp h
    exact (Grammar.item_encodeChar c).newline_notMem hc
  simp [Text.quoted, hbody]

theorem Numeral.newline_notMem_chars (n : Numeral) : '\n' ∉ n.chars :=
  fun h => absurd (n.all_chars _ h) (by decide)

theorem newline_notMem_intercalate {parts : List (List Char)} (h : ∀ part ∈ parts, '\n' ∉ part) :
    '\n' ∉ List.intercalate [',', ' '] parts := by
  induction parts with
  | nil => simp
  | cons part parts ih =>
    obtain ⟨hpart, hparts⟩ := List.forall_mem_cons.mp h
    cases parts with
    | nil => rwa [List.intercalate_singleton]
    | cons next parts =>
      rw [List.intercalate_cons_cons]
      simp [hpart, ih hparts]

mutual

/-- A literal whose words are each on one line is on one line. -/
theorem Literal.newline_notMem_chars : ∀ l : Literal, (∀ w ∈ l.words, '\n' ∉ w.toList) →
    '\n' ∉ l.chars
  | .string s, _ => newline_notMem_quoted s.toList
  | .number n, _ => n.newline_notMem_chars
  | .boolean true, _ => by decide
  | .boolean false, _ => by decide
  | .null, _ => by decide
  | .enum word, h => h word List.mem_cons_self
  | .list items, h => by
      have hitems := newline_notMem_intercalate (Literal.newline_notMem_itemsChars items h)
      simp [Literal.chars, hitems]
  | .object entries, h => by
      have hentries := newline_notMem_intercalate (Literal.newline_notMem_entriesChars entries h)
      simp [Literal.chars, hentries]

/-- The items of a list. -/
theorem Literal.newline_notMem_itemsChars : ∀ items : List Literal,
    (∀ w ∈ Literal.itemsWords items, '\n' ∉ w.toList) →
      ∀ part ∈ Literal.itemsChars items, '\n' ∉ part
  | [], _ => nofun
  | item :: rest, h => by
      obtain ⟨hitem, hrest⟩ := List.forall_mem_append.mp h
      exact List.forall_mem_cons.mpr
        ⟨Literal.newline_notMem_chars item hitem, Literal.newline_notMem_itemsChars rest hrest⟩

/-- Entries. -/
theorem Literal.newline_notMem_entriesChars : ∀ entries : List (String × Literal),
    (∀ w ∈ Literal.entriesWords entries, '\n' ∉ w.toList) →
      ∀ part ∈ Literal.entriesChars entries, '\n' ∉ part
  | [], _ => nofun
  | (name, value) :: rest, h => by
      obtain ⟨hname, h⟩ := List.forall_mem_cons.mp h
      obtain ⟨hvalue, hrest⟩ := List.forall_mem_append.mp h
      have hvalue := Literal.newline_notMem_chars value hvalue
      exact List.forall_mem_cons.mpr
        ⟨by simp [hname, hvalue], Literal.newline_notMem_entriesChars rest hrest⟩

end

/-! ## 4. Lines of a selection -/

theorem Key.newline_notMem_heading {key : Key} (h : '\n' ∉ key.name.toList) :
    '\n' ∉ key.heading := by
  cases key with
  | field name => exact h
  | onType name =>
    have hname : '\n' ∉ name.toList := h
    have hon : '\n' ∉ "... on ".toList := by decide
    exact List.not_mem_append hon hname

theorem newline_notMem_argumentsChars {arguments : List (String × Literal)}
    (h : ∀ w ∈ Literal.entriesWords arguments, '\n' ∉ w.toList) :
    '\n' ∉ argumentsChars arguments := by
  have hentries := newline_notMem_intercalate (Literal.newline_notMem_entriesChars arguments h)
  unfold argumentsChars
  split
  · exact List.not_mem_nil
  · simp [hentries]

mutual

/-- The lines of a selection hold no break of their own. -/
theorem Selection.newline_notMem_lines (level : Nat) : ∀ s : Selection,
    (∀ w ∈ s.words, '\n' ∉ w.toList) → ∀ l ∈ s.lines level, '\n' ∉ l.content
  | ⟨_, allScalars, items⟩, h => by
      -- the arguments stand on the line that opens the selection, which is not one of these
      obtain ⟨-, hitems⟩ := List.forall_mem_append.mp h
      refine List.forall_mem_append.mpr
        ⟨Selection.newline_notMem_itemsLines level items hitems, ?_⟩
      cases allScalars <;> simp

/-- The lines of items. -/
theorem Selection.newline_notMem_itemsLines (level : Nat) : ∀ items : List (Key × Item),
    (∀ w ∈ Selection.itemsWords items, '\n' ∉ w.toList) →
      ∀ l ∈ Selection.itemsLines level items, '\n' ∉ l.content
  | [], _ => nofun
  | (key, item) :: rest, h => by
      obtain ⟨hkey, h⟩ := List.forall_mem_cons.mp h
      obtain ⟨hitem, hrest⟩ := List.forall_mem_append.mp h
      exact List.forall_mem_append.mpr ⟨Item.newline_notMem_lines level key item hkey hitem,
        Selection.newline_notMem_itemsLines level rest hrest⟩

/-- The lines of an item. -/
theorem Item.newline_notMem_lines (level : Nat) (key : Key) : ∀ item : Item,
    '\n' ∉ key.name.toList → (∀ w ∈ item.words, '\n' ∉ w.toList) →
      ∀ l ∈ Item.lines level key item, '\n' ∉ l.content
  | .leaf, hkey, _ => List.forall_mem_singleton.mpr (Key.newline_notMem_heading hkey)
  | .node ⟨arguments, allScalars, items⟩, hkey, h => by
      obtain ⟨harguments, -⟩ := List.forall_mem_append.mp h
      have hopen : '\n' ∉ (openingLine level key arguments).content := by
        simp [openingLine, Key.newline_notMem_heading hkey,
          newline_notMem_argumentsChars harguments]
      have hclose : '\n' ∉ (closingLine level).content := by simp [closingLine]
      have hlines := Selection.newline_notMem_lines (level + 1) ⟨arguments, allScalars, items⟩ h
      exact List.forall_mem_cons.mpr ⟨hopen, List.forall_mem_append.mpr
        ⟨hlines, List.forall_mem_singleton.mpr hclose⟩⟩

end

/-! ## 5. The text of a selection -/

/-- **The text further in is the text with blanks after every line break, and nothing else.** -/
theorem Selection.indented_eq_indentBreaks {s : Selection} (h : ∀ w ∈ s.words, '\n' ∉ w.toList)
    (n : Nat) : s.indented n = String.ofList (indentBreaks n s.text.toList) := by
  have hlines := s.newline_notMem_lines 1 h
  rw [text, indented, indented, String.toList_ofList, indentBreaks_braced 0 hlines,
    ← Selection.lines_add 1 n s, Nat.zero_add, Nat.add_comm]

/-- A note whose text has a line break, and the mark for all scalar fields. -/
def Selection.noted : Selection :=
  ⟨[], true, [(.field "note", .node ⟨[("text", .string "one\ntwo")], false,
    [(.field "id", .leaf)]⟩)]⟩

/-- The break in the string is written with a backslash, so the string stays on its line. -/
theorem Selection.indented_noted : (∀ w ∈ noted.words, '\n' ∉ w.toList) ∧
    noted.indented 1 = String.ofList (indentBreaks 1 noted.text.toList) ∧
    noted.text = "\x7b\n  note(text: \"one\\ntwo\") \x7b\n    id\n  \x7d\n  *\n\x7d" :=
  have h : ∀ w ∈ noted.words, '\n' ∉ w.toList := by decide
  ⟨h, indented_eq_indentBreaks h 1, by decide⟩

end FieldSelection
