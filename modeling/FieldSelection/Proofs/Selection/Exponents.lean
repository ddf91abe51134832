import FieldSelection.Proofs.Grammar.Doubles
import FieldSelection.Proofs.Selection.Parsed
import FieldSelection.Proofs.Selection.Reparsing

/-!
# Texts of what was read

The grammar has no exponents, but a double of an extreme magnitude is written with one.

* A number among the tokens of a text comes from the text of a number (`among_of_scan`), so nothing
  that is read from the text of a selection has a number with an exponent.
* What was read from a source is read back from its own text, with room for the braces that the text
  always has, if and only if none of its numbers is written with an exponent
  (`parseWithin_text_of_parseWithin`).
-/

namespace FieldSelection

open Grammar

/-! ## 1. Numbers among the tokens of a text -/

/-- One of the numbers has a text with the number `n` among its tokens. -/
def Numeral.Among (n : Numeral) (ms : List Numeral) : Prop :=
  ∃ m ∈ ms, ∃ ls, kinds? m.chars = some ls ∧ .number n ∈ ls

theorem Numeral.Among.append_left {n : Numeral} {ms : List Numeral} (ns : List Numeral)
    (h : n.Among ms) : n.Among (ms ++ ns) := by
  obtain ⟨m, hm, hread⟩ := h
  exact ⟨m, List.mem_append_left ns hm, hread⟩

theorem Numeral.Among.append_right {n : Numeral} {ns : List Numeral} (ms : List Numeral)
    (h : n.Among ns) : n.Among (ms ++ ns) := by
  obtain ⟨m, hm, hread⟩ := h
  exact ⟨m, List.mem_append_right ms hm, hread⟩

section Numbers

variable {n : Numeral}

theorem mem_andThen {k : Token.Kind} {ks ls : Option (List Token.Kind)} {ms : List Token.Kind}
    (h : andThen ks ls = some ms) (hk : k ∈ ms) :
    (∃ l, ks = some l ∧ k ∈ l) ∨ ∃ l, ls = some l ∧ k ∈ l := by
  obtain ⟨l, m, hl, hm, rfl⟩ := andThen_eq_some_iff.mp h
  rcases List.mem_append.mp hk with hk | hk
  · exact Or.inl ⟨l, hl, hk⟩
  · exact Or.inr ⟨m, hm, hk⟩

theorem number_mem_enclosed {before after : Mark} {ks : Option (List Token.Kind)}
    {ms : List Token.Kind} (h : enclosed before ks after = some ms) (hn : .number n ∈ ms) :
    ∃ l, ks = some l ∧ .number n ∈ l := by
  obtain ⟨l, hl, rfl⟩ := enclosed_eq_some_iff.mp h
  exact ⟨l, hl, by simpa using hn⟩

mutual

/-- A number among the tokens of a literal comes from a number of the literal. -/
theorem Literal.among_of_scan : ∀ (l : Literal) {ks : List Token.Kind}, l.scan = some ks →
    .number n ∈ ks → n.Among l.numbers
  | .number m, ks, h, hn => ⟨m, List.mem_cons_self, ks, h, hn⟩
  | .string _, _, h, hn | .boolean _, _, h, hn | .null, _, h, hn | .enum _, _, h, hn => by
      cases h
      simp at hn
  | .list items, _, h, hn => by
      obtain ⟨l, hl, hn⟩ := number_mem_enclosed h hn
      exact Literal.among_of_itemsScan items hl hn
  | .object entries, _, h, hn => by
      obtain ⟨l, hl, hn⟩ := number_mem_enclosed h hn
      exact Literal.among_of_entriesScan entries hl hn

/-- A number among the tokens of the items of a list comes from a number of an item. -/
theorem Literal.among_of_itemsScan : ∀ (items : List Literal) {ks : List Token.Kind},
    Literal.itemsScan items = some ks → .number n ∈ ks → n.Among (Literal.itemsNumbers items)
  | [], _, h, hn => by
      cases h
      cases hn
  | item :: rest, _, h, hn => by
      rcases mem_andThen h hn with ⟨l, hl, hn⟩ | ⟨l, hl, hn⟩
      · exact (Literal.among_of_scan item hl hn).append_left _
      · exact (Literal.among_of_itemsScan rest hl hn).append_right _

/-- A number among the tokens of entries comes from a number of a value. -/
theorem Literal.among_of_entriesScan : ∀ (entries : List (String × Literal))
    {ks : List Token.Kind}, Literal.entriesScan entries = some ks → .number n ∈ ks →
      n.Among (Literal.entriesNumbers entries)
  | [], _, h, hn => by
      cases h
      cases hn
  | (name, value) :: rest, _, h, hn => by
      rcases mem_andThen h hn with ⟨l, hl, hn⟩ | ⟨l, hl, hn⟩
      · obtain ⟨_, _, hname, hvalue, rfl⟩ := andThen_eq_some_iff.mp hl
        cases hname
        obtain ⟨_, m, hcolon, hm, rfl⟩ := andThen_eq_some_iff.mp hvalue
        cases hcolon
        have hn : .number n ∈ m := by simpa using hn
        exact (Literal.among_of_scan value hm hn).append_left _
      · exact (Literal.among_of_entriesScan rest hl hn).append_right _

end

theorem among_of_argumentsScan {arguments : List (String × Literal)} {ks : List Token.Kind}
    (h : argumentsScan arguments = some ks) (hn : .number n ∈ ks) :
    n.Among (Literal.entriesNumbers arguments) := by
  unfold argumentsScan at h
  split at h
  · cases h
    cases hn
  · obtain ⟨l, hl, hn⟩ := number_mem_enclosed h hn
    exact Literal.among_of_entriesScan arguments hl hn

theorem Key.number_notMem_scan (key : Key) : .number n ∉ key.scan := by
  cases key <;> simp [Key.scan]

mutual

/-- A number among the tokens of a selection comes from a number of the selection. -/
theorem Selection.among_of_scan : ∀ (s : Selection) {ks : List Token.Kind}, s.scan = some ks →
    .number n ∈ ks → n.Among s.numbers
  | ⟨arguments, allScalars, items⟩, _, h, hn => by
      rcases mem_andThen h hn with ⟨l, hl, hn⟩ | ⟨l, hl, hn⟩
      · exact (Selection.among_of_itemsScan items hl hn).append_right _
      · split at hl
        · cases hl
        · cases hl
          cases hn

/-- A number among the tokens of items comes from a number of the items. -/
theorem Selection.among_of_itemsScan : ∀ (items : List (Key × Item)) {ks : List Token.Kind},
    Selection.itemsScan items = some ks → .number n ∈ ks → n.Among (Selection.itemsNumbers items)
  | [], _, h, hn => by
      cases h
      cases hn
  | (key, item) :: rest, _, h, hn => by
      rcases mem_andThen h hn with ⟨l, hl, hn⟩ | ⟨l, hl, hn⟩
      · exact (Item.among_of_scan key item hl hn).append_left _
      · exact (Selection.among_of_itemsScan rest hl hn).append_right _

/-- A number among the tokens of an item comes from a number of the item. -/
theorem Item.among_of_scan : ∀ (key : Key) (item : Item) {ks : List Token.Kind},
    item.scan key = some ks → .number n ∈ ks → n.Among item.numbers
  | key, .leaf, _, h, hn => by
      cases h
      exact absurd hn key.number_notMem_scan
  | key, .node ⟨arguments, allScalars, items⟩, _, h, hn => by
      rcases mem_andThen h hn with ⟨l, hl, hn⟩ | ⟨l, hl, hn⟩
      · rcases mem_andThen hl hn with ⟨l, hl, hn⟩ | ⟨l, hl, hn⟩
        · cases hl
          exact absurd hn key.number_notMem_scan
        · exact (among_of_argumentsScan hl hn).append_left _
      · obtain ⟨l, hl, hn⟩ := number_mem_enclosed hl hn
        exact Selection.among_of_scan ⟨arguments, allScalars, items⟩ hl hn

end

end Numbers

/-! ## 2. Reading what was read once more -/

/-- Canonical numbers have texts in which no number with an exponent is read: the ones without an
    exponent are read as themselves, and the others as numbers without one. -/
theorem Numeral.no_exponent_of_among {n : Numeral} {ms : List Numeral}
    (hms : ∀ m ∈ ms, m.Canonical) (h : n.Among ms) : 'e' ∉ n.chars := by
  obtain ⟨m, hm, ls, hread, hn⟩ := h
  by_cases he : 'e' ∈ m.chars
  · exact no_exponent_of_kinds? (hms m hm) he hread hn
  · have hself : kinds? m.chars = some [.number m] := rereads_of_no_exponent (hms m hm) he
    obtain rfl : ls = [.number m] := by
      rw [hread] at hself
      exact Option.some.inj hself
    obtain rfl : n = m := by simpa using hn
    exact he

/-- What is read from the text of a selection with canonical numbers has no number with an
    exponent. -/
theorem Selection.no_exponent_of_parseWithin_text {limit : Nat} {s t : Selection} (hs : s.Spelled)
    (hn : ∀ n ∈ s.numbers, n.Canonical) (h : parseWithin limit s.text = .ok t) :
    ∀ n ∈ t.numbers, 'e' ∉ n.chars := by
  intro n hmem
  obtain ⟨ks, hks, -, -, hfits⟩ := fits_of_parseWithin h
  have htoken : .number n ∈ ks := (hfits.sound.numbers n hmem).2
  rw [s.kinds?_text hs] at hks
  obtain ⟨l, hl, hin⟩ := number_mem_enclosed hks htoken
  exact Numeral.no_exponent_of_among hn (s.among_of_scan hl hin)

/-- What was read from a source, with no number written with an exponent, is read back from its
    text. -/
theorem Selection.parseWithin_text_of_no_exponent {limit : Nat} {source : String} {s : Selection}
    (h : parseWithin limit source = .ok s) (he : ∀ n ∈ s.numbers, 'e' ∉ n.chars) :
    parseWithin (limit + 1) s.text = .ok s := by
  obtain ⟨ks, -, hitems, harguments, hfits⟩ := fits_of_parseWithin h
  obtain ⟨hw, hs, hp, hdepth, hn⟩ := hfits.sound
  have hrereads : ∀ n ∈ s.numbers, n.Rereads := fun n hmem =>
    rereads_of_no_exponent (hn n hmem).1 (he n hmem)
  have hself : s.withoutArguments = s := by
    obtain ⟨_, _, _⟩ := s
    obtain rfl := harguments
    rfl
  have hread := (parseWithin_text_of_plain hw hs hrereads hitems hp (limit + 1)).1
    (Nat.le_trans (Nat.le_max_right _ _) hdepth)
  rwa [hself] at hread

/-- **What was read from a source is read back from its own text exactly if none of its numbers is
    written with an exponent.** One more level of room makes up for the outer braces. -/
theorem Selection.parseWithin_text_of_parseWithin {limit : Nat} {source : String} {s : Selection}
    (h : parseWithin limit source = .ok s) :
    parseWithin (limit + 1) s.text = .ok s ↔ ∀ n ∈ s.numbers, 'e' ∉ n.chars := by
  constructor
  · intro hread
    obtain ⟨ks, -, -, -, hfits⟩ := fits_of_parseWithin h
    exact no_exponent_of_parseWithin_text hfits.sound.spelled
      (fun n hmem => (hfits.sound.numbers n hmem).1) hread
  · exact parseWithin_text_of_no_exponent h

/-- `a(x: n) { b }` -/
def Selection.withNumber (n : Numeral) : Selection :=
  ⟨[], false, [(.field "a", .node ⟨[("x", .number n)], false, [(.field "b", .leaf)]⟩)]⟩

/-- The derivation of `a(x: n) { b }`. -/
def Grammar.Document.withNumber (n : Numeral) : Document :=
  .bare [.nested none "a" (some [("x", .number n)]) [.leaf none "b"]]

theorem Selection.parseWithin_withNumber {source : String} {n : Numeral}
    (h : kinds? source.toList = some (Document.withNumber n).kinds) :
    parseWithin 1 source = .ok (withNumber n) :=
  parseWithin_of_kinds? h (List.cons_ne_nil _ _) (Nat.le_refl 1)

/-- One half is read back. -/
theorem Selection.parseWithin_text_half :
    parseWithin 1 "a(x: 0.5) { b }" = .ok (withNumber (.double ⟨false, 2 ^ 52, -53⟩)) ∧
      parseWithin 2 (withNumber (.double ⟨false, 2 ^ 52, -53⟩)).text =
        .ok (withNumber (.double ⟨false, 2 ^ 52, -53⟩)) := by
  have hread : parseWithin 1 "a(x: 0.5) { b }" = .ok (withNumber (.double ⟨false, 2 ^ 52, -53⟩)) :=
    parseWithin_withNumber (by decide +kernel)
  exact ⟨hread, (parseWithin_text_of_parseWithin hread).mpr (by decide +kernel)⟩

/-- `10000000000000000000000` is written as `1e+22`, and that is not read at all. -/
theorem Selection.parseWithin_text_tenToTwentyTwo :
    ¬ ∀ (limit : Nat) (source : String) (s : Selection), parseWithin limit source = .ok s →
      parseWithin (limit + 1) s.text = .ok s := by
  intro h
  have hread : parseWithin 1 "a(x: 10000000000000000000000) { b }" =
      .ok (withNumber (.double ⟨false, 4768371582031250, 21⟩)) :=
    parseWithin_withNumber (by decide +kernel)
  obtain ⟨ts, hts, -⟩ := exists_derivation (h 1 _ _ hread)
  have hsome := kinds?_eq_some_iff.mpr ⟨ts, hts, rfl⟩
  have hnone : kinds? (withNumber (.double ⟨false, 4768371582031250, 21⟩)).text.toList = none := by
    decide +kernel
  cases hnone.symm.trans hsome

end FieldSelection
