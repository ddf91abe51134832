import FieldSelection.Proofs.Grammar.Acceptance
import FieldSelection.Proofs.Selection.Phrases

/-!
# Texts of selections are read back

* A spread in a derivation is always followed by two names and an opening brace (`SpreadsOpen`), so
  a text in which a type condition has no set, or arguments ahead of it, is not derived
  (`plain_of_spreadsOpen`).
* All other spelled selections without marks for all scalar fields are read back, their own
  arguments apart, with as much room as they are deep, and fail for their depth with less
  (`parseWithin_text`).
-/

namespace FieldSelection

namespace Grammar

/-! ## 1. What follows a spread -/

/-- Every spread is followed by two names and an opening brace. -/
def SpreadsOpen : List Token.Kind → Prop
  | [] => True
  | .spread :: ks =>
    (∃ v w ls, ks = .name v :: .name w :: .mark .openBrace :: ls) ∧ SpreadsOpen ks
  | _ :: ks => SpreadsOpen ks

theorem SpreadsOpen.tail {k : Token.Kind} {ks : List Token.Kind} (h : SpreadsOpen (k :: ks)) :
    SpreadsOpen ks := by
  cases k with
  | spread => exact h.2
  | name | string | number | mark => exact h

theorem SpreadsOpen.of_append {ks ls : List Token.Kind} (h : SpreadsOpen (ks ++ ls)) :
    SpreadsOpen ls := by
  induction ks with
  | nil => exact h
  | cons k ks ih => exact ih h.tail

mutual

/-- A value has no spread. -/
theorem Value.spreadsOpen : ∀ (v : Value) {ls : List Token.Kind}, SpreadsOpen ls →
    SpreadsOpen (v.kinds ++ ls)
  | .string _, _, h | .number _, _, h | .word _, _, h => h
  | .list items, ls, h => by
      rw [Value.kinds, List.cons_append, List.append_assoc]
      exact Value.spreadsOpen_items items h
  | .object entries, ls, h => by
      rw [Value.kinds, List.cons_append, List.append_assoc]
      exact Value.spreadsOpen_entries entries h

/-- The items of a list have no spread. -/
theorem Value.spreadsOpen_items : ∀ (items : List Value) {ls : List Token.Kind}, SpreadsOpen ls →
    SpreadsOpen (Value.itemsKinds items ++ ls)
  | [], _, h => h
  | item :: rest, ls, h => by
      rw [Value.itemsKinds, List.append_assoc]
      exact Value.spreadsOpen item (Value.spreadsOpen_items rest h)

/-- Entries have no spread. -/
theorem Value.spreadsOpen_entries : ∀ (entries : List (String × Value)) {ls : List Token.Kind},
    SpreadsOpen ls → SpreadsOpen (Value.entriesKinds entries ++ ls)
  | [], _, h => h
  | (name, value) :: rest, ls, h => by
      rw [Value.entriesKinds, List.cons_append, List.cons_append, List.append_assoc]
      exact Value.spreadsOpen value (Value.spreadsOpen_entries rest h)

end

theorem spreadsOpen_headKinds (alias? : Option String) (name : String) {ls : List Token.Kind}
    (h : SpreadsOpen ls) : SpreadsOpen (headKinds alias? name ++ ls) := by
  cases alias? <;> exact h

theorem spreadsOpen_argumentsKinds (arguments? : Option (List (String × Value)))
    {ls : List Token.Kind} (h : SpreadsOpen ls) :
    SpreadsOpen (argumentsKinds arguments? ++ ls) := by
  cases arguments? with
  | none => exact h
  | some entries =>
    rw [argumentsKinds, List.cons_append, List.append_assoc]
    exact Value.spreadsOpen_entries entries h

mutual

/-- The spread of a fragment opens. -/
theorem Phrase.spreadsOpen : ∀ (phrase : Phrase) {ls : List Token.Kind}, SpreadsOpen ls →
    SpreadsOpen (phrase.kinds ++ ls)
  | .leaf alias? name, _, h => spreadsOpen_headKinds alias? name h
  | .nested alias? name arguments? set, ls, h => by
      rw [Phrase.kinds, List.append_assoc, List.append_assoc, List.cons_append, List.append_assoc]
      exact spreadsOpen_headKinds alias? name
        (spreadsOpen_argumentsKinds arguments? (Phrase.spreadsOpen_set set h))
  | .fragment type set, ls, h => by
      have hset : SpreadsOpen (Phrase.setKinds set ++ ([.mark .closeBrace] ++ ls)) :=
        Phrase.spreadsOpen_set set h
      rw [← List.append_assoc] at hset
      exact ⟨⟨_, _, _, rfl⟩, hset⟩

/-- The spreads of a set open. -/
theorem Phrase.spreadsOpen_set : ∀ (set : List Phrase) {ls : List Token.Kind}, SpreadsOpen ls →
    SpreadsOpen (Phrase.setKinds set ++ ls)
  | [], _, h => h
  | phrase :: rest, ls, h => by
      rw [Phrase.setKinds, List.append_assoc]
      exact Phrase.spreadsOpen phrase (Phrase.spreadsOpen_set rest h)

end

/-- What is derived has spreads that open. -/
theorem Document.spreadsOpen (d : Document) : SpreadsOpen d.kinds := by
  cases d with
  | braced set =>
    have hclose : SpreadsOpen [.mark .closeBrace] := trivial
    exact Phrase.spreadsOpen_set set hclose
  | bare set =>
    have hnil : SpreadsOpen [] := trivial
    have h := Phrase.spreadsOpen_set set hnil
    rwa [List.append_nil] at h

/-! ## 2. What the text of a selection says after a spread -/

theorem andThen_eq_some_iff {ks ls : Option (List Token.Kind)} {ms : List Token.Kind} :
    andThen ks ls = some ms ↔ ∃ k l, ks = some k ∧ ls = some l ∧ k ++ l = ms := by
  cases ks <;> cases ls <;> simp [andThen]

theorem enclosed_eq_some_iff {before after : Mark} {ks : Option (List Token.Kind)}
    {ms : List Token.Kind} :
    enclosed before ks after = some ms ↔
      ∃ k, ks = some k ∧ .mark before :: (k ++ [.mark after]) = ms := by
  cases ks <;> simp [enclosed, andThen]

/-- No opening brace comes next. -/
def Unopened (ks : List Token.Kind) : Prop := ks.head? ≠ some (.mark .openBrace)

end Grammar

open Grammar

theorem Item.unopened_scan {key : Key} {item : Item} {ks ls : List Token.Kind}
    (h : item.scan key = some ks) : Unopened (ks ++ ls) := by
  have hkey : ∃ k l, ks = k :: l ∧ k ≠ .mark .openBrace := by
    cases item with
    | leaf => cases key <;> cases h <;> exact ⟨_, _, rfl, by simp⟩
    | node s =>
      obtain ⟨_, _, hhead, -, rfl⟩ := andThen_eq_some_iff.mp h
      obtain ⟨_, _, hkey, -, rfl⟩ := andThen_eq_some_iff.mp hhead
      cases key <;> cases hkey <;> exact ⟨_, _, rfl, by simp⟩
  obtain ⟨k, l, rfl, hk⟩ := hkey
  simpa [Unopened] using hk

theorem Selection.unopened_itemsScan {items : List (Key × Item)} {ks ls : List Token.Kind}
    (h : Selection.itemsScan items = some ks) (hls : Unopened ls) : Unopened (ks ++ ls) := by
  cases items with
  | nil =>
    cases h
    exact hls
  | cons e rest =>
    obtain ⟨k, l, hk, -, rfl⟩ := andThen_eq_some_iff.mp h
    rw [List.append_assoc]
    exact Item.unopened_scan hk

/-- Where spreads open, a type condition has a set right after it. -/
theorem set_of_spreadsOpen {name : String} {ks : List Token.Kind}
    (h : SpreadsOpen ((Key.onType name).scan ++ ks)) : ∃ ls, ks = .mark .openBrace :: ls := by
  obtain ⟨⟨v, w, ls, h⟩, -⟩ := h
  cases h
  exact ⟨ls, rfl⟩

mutual

/-- Where spreads open, a selection is plain. -/
theorem Selection.plain_of_spreadsOpen : ∀ (s : Selection) {ks ls : List Token.Kind},
    s.scan = some ks → Unopened ls → SpreadsOpen (ks ++ ls) → s.Plain
  | ⟨_, allScalars, items⟩, ks, ls, h, hls, hspreads => by
      obtain ⟨k, l, hk, hl, rfl⟩ := andThen_eq_some_iff.mp h
      cases allScalars with
      | true => cases hl
      | false =>
        cases hl
        rw [List.append_nil] at hspreads
        exact ⟨rfl, Selection.itemsPlain_of_spreadsOpen items hk hls hspreads⟩

/-- Where spreads open, items are plain. -/
theorem Selection.itemsPlain_of_spreadsOpen : ∀ (items : List (Key × Item))
    {ks ls : List Token.Kind}, Selection.itemsScan items = some ks → Unopened ls →
      SpreadsOpen (ks ++ ls) → Selection.ItemsPlain items
  | [], _, _, _, _, _ => trivial
  | (key, item) :: rest, ks, ls, h, hls, hspreads => by
      obtain ⟨k, l, hk, hl, rfl⟩ := andThen_eq_some_iff.mp h
      rw [List.append_assoc] at hspreads
      exact ⟨Item.plain_of_spreadsOpen key item hk (Selection.unopened_itemsScan hl hls) hspreads,
        Selection.itemsPlain_of_spreadsOpen rest hl hls hspreads.of_append⟩

/-- Where spreads open, an item is plain under its key. -/
theorem Item.plain_of_spreadsOpen : ∀ (key : Key) (item : Item) {ks ls : List Token.Kind},
    item.scan key = some ks → Unopened ls → SpreadsOpen (ks ++ ls) → item.Plain key
  | .field _, .leaf, _, _, _, _, _ => trivial
  | .onType name, .leaf, ks, ls, h, hls, hspreads => by
      cases h
      obtain ⟨_, rfl⟩ := set_of_spreadsOpen hspreads
      exact absurd rfl hls
  | .field name, .node s, ks, ls, h, hls, hspreads => by
      obtain ⟨k, l, -, hl, rfl⟩ := andThen_eq_some_iff.mp h
      obtain ⟨m, hm, rfl⟩ := enclosed_eq_some_iff.mp hl
      rw [List.append_assoc, List.cons_append, List.append_assoc] at hspreads
      exact Selection.plain_of_spreadsOpen s hm (by simp [Unopened]) hspreads.of_append.tail
  | .onType name, .node s, ks, ls, h, hls, hspreads => by
      obtain ⟨k, l, hk, hl, rfl⟩ := andThen_eq_some_iff.mp h
      obtain ⟨m, hm, rfl⟩ := enclosed_eq_some_iff.mp hl
      rw [List.append_assoc, List.cons_append, List.append_assoc] at hspreads
      refine ⟨?_, Selection.plain_of_spreadsOpen s hm (by simp [Unopened]) hspreads.of_append.tail⟩
      obtain ⟨_, a, hkey, ha, rfl⟩ := andThen_eq_some_iff.mp hk
      cases hkey
      rw [List.append_assoc] at hspreads
      obtain ⟨_, hopen⟩ := set_of_spreadsOpen hspreads
      unfold argumentsScan at ha
      split at ha
      · rename_i hempty
        exact List.isEmpty_iff.mp hempty
      · obtain ⟨_, -, rfl⟩ := enclosed_eq_some_iff.mp ha
        cases hopen

end

/-! ## 3. Reading texts back -/

/-- The text of a selection is read only if the selection is plain. -/
theorem Selection.plain_of_parseWithin_text {limit : Nat} {s t : Selection} (hs : s.Spelled)
    (h : parseWithin limit s.text = .ok t) : s.Plain := by
  obtain ⟨ts, hts, d, hd, -⟩ := exists_derivation h
  have hkinds : kinds? s.text.toList = some d.kinds := kinds?_eq_some_iff.mpr ⟨ts, hts, hd.symm⟩
  rw [s.kinds?_text hs] at hkinds
  obtain ⟨ks, hks, hd'⟩ := enclosed_eq_some_iff.mp hkinds
  have hspreads : SpreadsOpen (ks ++ [.mark .closeBrace]) := (hd' ▸ d.spreadsOpen).tail
  exact s.plain_of_spreadsOpen hks (by simp [Unopened]) hspreads

/-- The text of a plain selection is that of its phrases between braces. -/
theorem Selection.kinds?_text_of_plain {s : Selection} (hs : s.Spelled)
    (hn : ∀ n ∈ s.numbers, n.Rereads) (h : s.Plain) :
    kinds? s.text.toList = some (Document.braced s.phrases).kinds := by
  rw [s.kinds?_text hs, s.scan_eq h hn]
  rfl

theorem Selection.phrases_ne_nil {s : Selection} (h : s.items ≠ []) : s.phrases ≠ [] := by
  obtain ⟨_, _, items⟩ := s
  cases items with
  | nil => exact absurd rfl h
  | cons e rest => simp [phrases, itemsPhrases]

/-- The text of a plain selection is read back if there is room for its depth, and else fails for
    its depth. -/
theorem Selection.parseWithin_text_of_plain {s : Selection} (hw : s.WellFormed) (hs : s.Spelled)
    (hn : ∀ n ∈ s.numbers, n.Rereads) (hitems : s.items ≠ []) (h : s.Plain) (limit : Nat) :
    (s.depth ≤ limit → parseWithin limit s.text = .ok s.withoutArguments) ∧
      (limit < s.depth → ∃ p, parseWithin limit s.text = .error ⟨.tooDeep limit, p⟩) := by
  obtain ⟨ts, hts, hd⟩ := kinds?_eq_some_iff.mp (kinds?_text_of_plain hs hn h)
  have hanswers := parseWithin_of_derivation limit hts hd.symm (phrases_ne_nil hitems)
  have hdepth : (Document.braced s.phrases).depth = s.depth := s.depth_eq h
  have hvalue : (Document.braced s.phrases).selection = s.withoutArguments :=
    s.mergeAll_phrases hw hs h
  rwa [hdepth, hvalue] at hanswers

/-- **The text of a selection is read back exactly if the selection is plain.** With at least as
    much room as the selection is deep, it is read as the selection without its own arguments; with
    less room, it is too deep. Names have to be identifiers and numbers have to read back, as all
    integers of 64 bits do. -/
theorem Selection.parseWithin_text :
    (∀ n : Int, -2 ^ 63 ≤ n → n < 2 ^ 64 → (Numeral.integer n).Rereads) ∧
      ∀ s : Selection, s.WellFormed → s.Spelled → (∀ n ∈ s.numbers, n.Rereads) → s.items ≠ [] →
        ((∃ limit t, parseWithin limit s.text = .ok t) ↔ s.Plain) ∧
          (s.Plain → ∀ limit,
            (s.depth ≤ limit → parseWithin limit s.text = .ok s.withoutArguments) ∧
              (limit < s.depth →
                ∃ p, parseWithin limit s.text = .error ⟨.tooDeep limit, p⟩)) := by
  refine ⟨fun n => rereads_integer, fun s hw hs hn hitems => ?_⟩
  have hread := parseWithin_text_of_plain hw hs hn hitems
  refine ⟨⟨?_, ?_⟩, hread⟩
  · rintro ⟨limit, t, h⟩
    exact plain_of_parseWithin_text hs h
  · intro h
    exact ⟨s.depth, _, (hread h s.depth).1 (Nat.le_refl _)⟩

/-- `products(first: 10, order: [PRICE, NAME]) { ... on Book { title } }` -/
def Selection.books : Selection :=
  ⟨[], false, [(.field "products", .node
    ⟨[("first", .number (.integer 10)), ("order", .list [.enum "PRICE", .enum "NAME"])], false,
      [(.onType "Book", .node ⟨[], false, [(.field "title", .leaf)]⟩)]⟩)]⟩

theorem Selection.parseWithin_text_books :
    parseWithin 3 books.text = .ok books ∧
      ∃ p, parseWithin 2 books.text = .error ⟨.tooDeep 2, p⟩ := by
  have hw : books.WellFormed := by
    simp [books, WellFormed, ItemsWellFormed, Item.WellFormed, Literal.EntriesWellFormed,
      Literal.ItemsWellFormed, Literal.WellFormed]
  have hs : books.Spelled := by
    simp [books, Spelled, ItemsSpelled, Item.Spelled, Literal.EntriesSpelled, Literal.ItemsSpelled,
      Literal.Spelled, Key.name]
    decide
  have hn : ∀ n ∈ books.numbers, n.Rereads := by
    intro n hn
    have hten : n = .integer 10 := by
      simpa [books, numbers, itemsNumbers, Item.numbers, Literal.entriesNumbers,
        Literal.itemsNumbers, Literal.numbers] using hn
    exact hten ▸ parseWithin_text.1 10 (by decide) (by decide)
  have hread := (parseWithin_text.2 books hw hs hn (by simp [books])).2
    (by simp [books, Plain, ItemsPlain, Item.Plain])
  exact ⟨(hread 3).1 (by decide), (hread 2).2 (by decide)⟩

end FieldSelection
