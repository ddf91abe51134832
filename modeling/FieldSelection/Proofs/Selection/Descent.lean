import FieldSelection.Selection.Request

/-!
# Selections inside a selection

`Selection.Reached` says which selections a selection holds, along which keys, and as which type
each of them is written in a request.

* Every selection that is reached has its own braces in the text (`Reached.braced_within`), as far
  in as there are keys on the way to it.
* If no name and no argument holds a brace, there are no other braces: each one that opens a set
  opens that of a selection that is reached (`exists_reached_of_brace`).
-/

namespace FieldSelection

/-! ## 1. What a selection holds -/

/-- Along keys, a selection of a type that may not be known holds another one, of another type. -/
inductive Selection.Reached (schema : Schema) :
    Option String → Selection → List Key → Option String → Selection → Prop where
  | here {type? : Option String} {s : Selection} : Reached schema type? s [] type? s
  | under {type? end? : Option String} {s child t : Selection} {key : Key} {keys : List Key}
      (hitem : (key, .node child) ∈ s.items)
      (h : Reached schema (key.target? (type?.bind schema.descriptor?)) child keys end? t) :
      Reached schema type? s (key :: keys) end? t

/-- What holds of a selection if it holds of all selections under its keys holds of every
    selection. -/
@[elab_as_elim]
theorem Selection.induct {p : Selection → Prop}
    (h : ∀ s : Selection, (∀ key child, (key, Item.node child) ∈ s.items → p child) → p s)
    (s : Selection) : p s :=
  @Selection.rec p (fun item => ∀ child, item = .node child → p child)
    (fun items => ∀ key child, (key, .node child) ∈ items → p child)
    (fun e => ∀ child, e.2 = .node child → p child)
    (fun _ _ _ ih => h _ ih) nofun (fun _ hs _ e => Item.node.inj e ▸ hs) nofun
    (fun _ _ he hrest key child hmem => by
      rcases List.mem_cons.mp hmem with heq | hmem
      · exact he child (heq ▸ rfl)
      · exact hrest key child hmem)
    (fun _ _ h => h) s

/-! ## 2. Braces of what is reached -/

namespace Selection

variable {schema : Schema}

/-- The lines of the items come last. -/
theorem requestItemsLines_suffix (type? : Option String) (level : Nat) (s : Selection) :
    requestItemsLines schema (type?.bind schema.descriptor?) level s.items <:+
      s.requestLines schema type? level := by
  obtain ⟨_, _, items⟩ := s
  unfold requestLines
  exact List.suffix_append _ _

/-- The lines of an item are among those of all items. -/
theorem item_within_items {d? : Option TypeDescriptor} {key : Key} {item : Item} (level : Nat)
    {items : List (Key × Item)} (h : (key, item) ∈ items) :
    Item.requestLines schema (key.target? d?) level key item <:+:
      requestItemsLines schema d? level items := by
  induction items with
  | nil => cases h
  | cons e rest ih =>
    rw [requestItemsLines]
    rcases List.mem_cons.mp h with rfl | h
    · exact (List.prefix_append _ _).isInfix
    · exact (ih h).trans (List.suffix_append _ _).isInfix

/-- The lines of an item are among those of the selection. -/
theorem item_within (schema : Schema) (type? : Option String) (level : Nat) {s : Selection}
    {key : Key} {item : Item} (h : (key, item) ∈ s.items) :
    Item.requestLines schema (key.target? (type?.bind schema.descriptor?)) level key item <:+:
      s.requestLines schema type? level :=
  (item_within_items level h).trans (requestItemsLines_suffix type? level s).isInfix

theorem chars_within {ls ms : List Line} (h : ls <:+: ms) :
    ls.flatMap Line.chars <:+: ms.flatMap Line.chars := by
  obtain ⟨as, bs, rfl⟩ := h
  rw [List.flatMap_append, List.flatMap_append]
  exact ⟨_, _, rfl⟩

/-- The text of a line that opens a selection, of the lines in it, and of the one that closes it. -/
theorem chars_requestLines_node (type? : Option String) (level : Nat) (key : Key) (s : Selection) :
    (Item.requestLines schema type? level key (.node s)).flatMap Line.chars =
      (indentation level ++ (key.heading ++ argumentsChars s.arguments ++ [' '])) ++
        (Line.braced level (s.requestLines schema type? (level + 1)) ++ ['\n']) := by
  simp [Item.requestLines, Line.braced, Line.chars, openingLine, closingLine]

/-- The braces of a node are in the text of its line and the lines under it. -/
theorem braced_within_item (type? : Option String) (level : Nat) (key : Key) (s : Selection) :
    Line.braced level (s.requestLines schema type? (level + 1)) <:+:
      (Item.requestLines schema type? level key (.node s)).flatMap Line.chars := by
  rw [chars_requestLines_node, ← List.append_assoc]
  exact ⟨_, _, rfl⟩

/-- The braces of a node are in the text of the selection that holds it. -/
theorem braced_within_of_mem {type? : Option String} {s child : Selection} {key : Key} (level : Nat)
    (h : (key, .node child) ∈ s.items) :
    Line.braced (level + 1)
        (child.requestLines schema (key.target? (type?.bind schema.descriptor?)) (level + 2)) <:+:
      Line.braced level (s.requestLines schema type? (level + 1)) := by
  have hlines := chars_within (item_within schema type? (level + 1) h)
  refine (braced_within_item _ (level + 1) key child).trans (hlines.trans ?_)
  exact ⟨['{', '\n'], indentation level ++ ['}'], by simp [Line.braced]⟩

/-- **Every selection that is reached has its braces in the text.** -/
theorem Reached.braced_within {type? end? : Option String} {s t : Selection} {keys : List Key}
    (h : s.Reached schema type? keys end? t) (level : Nat) :
    Line.braced (level + keys.length) (t.requestLines schema end? (level + keys.length + 1)) <:+:
      Line.braced level (s.requestLines schema type? (level + 1)) := by
  induction h generalizing level with
  | here => exact List.infix_rfl
  | under hitem _ ih =>
    rw [List.length_cons, Nat.add_comm _ 1, ← Nat.add_assoc]
    exact (ih (level + 1)).trans (braced_within_of_mem level hitem)

end Selection

/-! ## 3. Places behind two texts -/

/-- What starts with a character behind two texts starts behind the second, or in the first. -/
theorem suffix_append_cases {α : Type} {c : α} {cs xs ys : List α} (h : c :: cs <:+ xs ++ ys) :
    c :: cs <:+ ys ∨ ∃ ds, c :: ds <:+ xs ∧ cs = ds ++ ys := by
  obtain ⟨before, h⟩ := h
  rcases List.append_eq_append_iff.mp h with ⟨front, hxs, hcs⟩ | ⟨back, -, hys⟩
  · cases front with
    | nil => exact Or.inl ⟨[], hcs⟩
    | cons c' ds =>
      obtain ⟨rfl, rfl⟩ := List.cons.inj hcs
      exact Or.inr ⟨ds, ⟨before, hxs.symm⟩, rfl⟩
  · exact Or.inl ⟨back, hys.symm⟩

theorem not_suffix_of_notMem {α : Type} {c : α} {cs xs : List α} (hxs : c ∉ xs) :
    ¬ c :: cs <:+ xs :=
  fun h => hxs (h.mem List.mem_cons_self)

/-- What starts with a character starts behind a text that does not hold it. -/
theorem suffix_of_notMem {α : Type} {c : α} {cs xs ys : List α} (hxs : c ∉ xs)
    (h : c :: cs <:+ xs ++ ys) : c :: cs <:+ ys := by
  rcases suffix_append_cases h with h | ⟨ds, hds, -⟩
  · exact h
  · exact absurd hds (not_suffix_of_notMem hxs)

/-! ## 4. Selections at the braces -/

namespace Selection

variable {schema : Schema}

/-- No name and no arguments that are written between the braces of a selection hold a brace. -/
structure Unbraced (schema : Schema) (type? : Option String) (s : Selection) : Prop where
  scalars : ∀ d, type?.bind schema.descriptor? = some d → ∀ name ∈ d.scalars, '{' ∉ name.toList
  keys : ∀ key ∈ Table.keys s.items, '{' ∉ key.heading
  arguments : ∀ key child, (key, .node child) ∈ s.items → '{' ∉ argumentsChars child.arguments

variable {type? : Option String} {level : Nat} {after : List Char}

/-- A brace in a set is the one that opens it, or stands in its lines. -/
theorem brace_in_braced {ls : List Line} (h : '{' :: after <:+ Line.braced level ls) :
    '{' :: after = Line.braced level ls ∨
      ∃ rest, '{' :: rest <:+ ls.flatMap Line.chars ∧ '{' :: rest <+: '{' :: after := by
  have hend : '{' ∉ indentation level ++ ['}'] := by simp [notMem_indentation]
  have hsplit : Line.braced level ls =
      '{' :: (['\n'] ++ (ls.flatMap Line.chars ++ (indentation level ++ ['}']))) := by
    simp [Line.braced]
  rw [hsplit] at h ⊢
  rcases List.suffix_cons_iff.mp h with h | h
  · exact Or.inl h
  · rcases suffix_append_cases (suffix_of_notMem (by decide) h) with h | ⟨rest, hrest, rfl⟩
    · exact absurd h (not_suffix_of_notMem hend)
    · exact Or.inr ⟨rest, hrest, List.prefix_append _ _⟩

theorem brace_notMem_nameLines {names : List String} (h : ∀ name ∈ names, '{' ∉ name.toList) :
    '{' ∉ (nameLines level names).flatMap Line.chars := by
  simpa [nameLines, Line.chars, notMem_indentation] using h

/-- A brace in the lines of a selection stands in the lines of its items. -/
theorem brace_in_lines {s : Selection} (hs : s.Unbraced schema type?)
    (h : '{' :: after <:+ (s.requestLines schema type? level).flatMap Line.chars) :
    '{' :: after <:+
      (requestItemsLines schema (type?.bind schema.descriptor?) level s.items).flatMap
        Line.chars := by
  obtain ⟨arguments, allScalars, items⟩ := s
  unfold requestLines at h
  rw [List.flatMap_append] at h
  refine suffix_of_notMem ?_ h
  split
  · rename_i d hd
    refine brace_notMem_nameLines fun name hname => hs.scalars d hd name ?_
    exact (List.mem_filter.mp hname).1
  · exact List.not_mem_nil

/-- A brace in the lines of items stands in the lines of one of them. -/
theorem brace_in_items {d? : Option TypeDescriptor} {items : List (Key × Item)}
    (h : '{' :: after <:+ (requestItemsLines schema d? level items).flatMap Line.chars) :
    ∃ e ∈ items, ∃ rest, '{' :: rest <+: '{' :: after ∧
      '{' :: rest <:+
        (Item.requestLines schema (e.1.target? d?) level e.1 e.2).flatMap Line.chars := by
  induction items with
  | nil => exact absurd h (not_suffix_of_notMem List.not_mem_nil)
  | cons e items ih =>
    rw [requestItemsLines, List.flatMap_append] at h
    rcases suffix_append_cases h with h | ⟨rest, hrest, rfl⟩
    · obtain ⟨e', he', hlines⟩ := ih h
      exact ⟨e', List.mem_cons_of_mem _ he', hlines⟩
    · exact ⟨e, List.mem_cons_self, rest, List.prefix_append _ _, hrest⟩

/-- A brace in the set of a selection is the one that opens it, or is in the set of a key. -/
theorem brace_cases {s : Selection} (hs : s.Unbraced schema type?)
    (h : '{' :: after <:+ Line.braced level (s.requestLines schema type? (level + 1))) :
    '{' :: after = Line.braced level (s.requestLines schema type? (level + 1)) ∨
      ∃ key child rest, (key, .node child) ∈ s.items ∧ '{' :: rest <+: '{' :: after ∧
        '{' :: rest <:+ Line.braced (level + 1) (child.requestLines schema
          (key.target? (type?.bind schema.descriptor?)) (level + 2)) := by
  refine (brace_in_braced h).imp_right fun ⟨after', hlines, hafter⟩ => ?_
  obtain ⟨⟨key, item⟩, hitem, rest, hrest, hline⟩ := brace_in_items (brace_in_lines hs hlines)
  have hkey : '{' ∉ key.heading := hs.keys key (List.mem_map_of_mem hitem)
  cases item with
  | leaf =>
    refine absurd hline (not_suffix_of_notMem ?_)
    simp [Item.requestLines, Line.chars, notMem_indentation, hkey]
  | node child =>
    rw [chars_requestLines_node] at hline
    have harguments := hs.arguments key child hitem
    have hblock := suffix_of_notMem (by simp [notMem_indentation, hkey, harguments]) hline
    rcases suffix_append_cases hblock with hbreak | ⟨rest', hset, rfl⟩
    · exact absurd hbreak (not_suffix_of_notMem (by decide))
    · have hprefix := (List.prefix_append ('{' :: rest') ['\n']).trans (hrest.trans hafter)
      exact ⟨key, child, rest', hitem, hprefix, hset⟩

/-- **Every brace opens the set of a selection that is reached.** -/
theorem exists_reached_of_brace {s : Selection}
    (hs : ∀ keys end? u, s.Reached schema type? keys end? u → u.Unbraced schema end?)
    (h : '{' :: after <:+ Line.braced level (s.requestLines schema type? (level + 1))) :
    ∃ keys end? u, s.Reached schema type? keys end? u ∧
      Line.braced (level + keys.length) (u.requestLines schema end? (level + keys.length + 1)) <+:
        '{' :: after := by
  induction s using Selection.induct generalizing type? level after with
  | h s ih =>
    rcases brace_cases (hs _ _ _ .here) h with heq | ⟨key, child, rest, hitem, hrest, hset⟩
    · exact ⟨[], type?, s, .here, heq ▸ List.prefix_rfl⟩
    · obtain ⟨keys, end?, u, hu, hblock⟩ :=
        ih key child hitem (fun _ _ _ hu => hs _ _ _ (.under hitem hu)) hset
      refine ⟨key :: keys, end?, u, .under hitem hu, ?_⟩
      rw [List.length_cons, Nat.add_comm _ 1, ← Nat.add_assoc]
      exact hblock.trans hrest

end Selection

end FieldSelection
