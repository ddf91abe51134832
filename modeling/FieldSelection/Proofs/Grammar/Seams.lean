import FieldSelection.Proofs.Grammar.Offsets
import FieldSelection.Proofs.Grammar.Strings

/-!
# Texts one after another

No token goes on past the end of a line: a string does not, and no other token has a line feed in
it. So a text that is made of tokens may be followed by a line feed and any other text: the tokens
of both are those of the one and, at the offsets that this moves them to, those of the other
(`tokens_line`). That holds for a comment at the end of the first text, too; the line feed ends it.
-/

namespace FieldSelection

/-- The same was read, with more text after it. -/
structure Taken.Extended {α : Type} {input input' : List Char} (more : List Char)
    (t : Taken α input) (t' : Taken α input') : Prop where
  value : t'.value = t.value
  text : t'.text = t.text
  rest : t'.rest = t.rest ++ more

namespace Grammar

open Text (bytes isBlank)

/-! ## 1. The offset of a text -/

/-- Tokens of a text that starts at another offset. -/
theorem tokens_move : ∀ (n start : Nat) (cs : List Char),
    Alike (n + ·) (fun ts ts' => ts' = ts.map (Token.move (n + ·))) (tokens start cs)
      (tokens (n + start) cs)
  | n, start, cs => by
      cases hg : (gap false cs).rest with
      | nil =>
        rw [tokens_of_gap start hg, tokens_of_gap (n + start) hg]
        exact .ok rfl
      | cons c rest =>
        cases hl : lexeme c rest with
        | error f =>
          rw [tokens_of_lexeme_error start hg hl, tokens_of_lexeme_error (n + start) hg hl,
            Nat.add_assoc n, Nat.add_assoc n]
          exact .error _
        | ok t =>
          have hlt : t.rest.length < cs.length := Nat.lt_of_le_of_lt t.rest_le (rest_lt_of_gap hg)
          rw [tokens_of_lexeme start hg hl, tokens_of_lexeme (n + start) hg hl,
            Nat.add_assoc n, Nat.add_assoc n]
          refine (tokens_move n _ t.rest).map fun ts ts' hts => ?_
          rw [hts]
          rfl
  termination_by _ _ cs => cs.length

/-! ## 2. Gaps -/

/-- A gap that ends ahead of a token ends there with more text after it, too. -/
theorem gap_append (more : List Char) : ∀ (comment : Bool) (cs : List Char),
    (gap comment cs).rest ≠ [] →
      (gap comment cs).Extended more (gap comment (cs ++ more))
  | comment, [], h => by
      cases comment <;> exact absurd rfl h
  | true, c :: cs, h => by
      have ih := gap_append more (c != '\n') cs h
      exact ⟨rfl, congrArg (c :: ·) ih.text, ih.rest⟩
  | false, c :: cs, h => by
      rw [gap] at h
      rw [List.cons_append, gap, gap]
      by_cases hblank : (isBlank c || c == ',') = true
      · simp only [hblank, ↓reduceIte] at h ⊢
        have ih := gap_append more false cs h
        exact ⟨rfl, congrArg (c :: ·) ih.text, ih.rest⟩
      by_cases hhash : (c == '#') = true
      · simp only [hblank, hhash, ↓reduceIte] at h ⊢
        have ih := gap_append more true cs h
        exact ⟨rfl, congrArg (c :: ·) ih.text, ih.rest⟩
      · simp only [hblank, hhash]
        exact ⟨rfl, rfl, rfl⟩

/-- A gap at the end of a line, and the gap that the next text starts with. -/
theorem gap_line (more : List Char) : ∀ (comment : Bool) (cs : List Char),
    (gap comment cs).rest = [] →
      (gap comment (cs ++ '\n' :: more)).rest = (gap false more).rest ∧
        (gap comment (cs ++ '\n' :: more)).text = cs ++ '\n' :: (gap false more).text
  | true, [], _ => ⟨rfl, rfl⟩
  | false, [], _ => ⟨rfl, rfl⟩
  | true, c :: cs, h => by
      obtain ⟨hrest, htext⟩ := gap_line more (c != '\n') cs h
      exact ⟨hrest, congrArg (c :: ·) htext⟩
  | false, c :: cs, h => by
      rw [gap] at h
      rw [List.cons_append, gap]
      by_cases hblank : (isBlank c || c == ',') = true
      · simp only [hblank, ↓reduceIte] at h ⊢
        obtain ⟨hrest, htext⟩ := gap_line more false cs h
        exact ⟨hrest, congrArg (c :: ·) htext⟩
      by_cases hhash : (c == '#') = true
      · simp only [hblank, hhash, ↓reduceIte] at h ⊢
        obtain ⟨hrest, htext⟩ := gap_line more true cs h
        exact ⟨hrest, congrArg (c :: ·) htext⟩
      · simp only [hblank, hhash] at h
        cases h

/-! ## 3. Tokens -/

/-- A token ends where it ends, if no token goes on in the text after it. -/
theorem lexeme_append {more : List Char} (hmore : Separated more) {c : Char} {cs : List Char}
    {t : Taken Token.Kind cs} (h : lexeme c cs = .ok t) :
    ∃ t', lexeme c (cs ++ more) = .ok t' ∧ t.Extended more t' := by
  have hcs : lexeme? c cs = some (t.value, t.rest) := by
    rw [lexeme?, h]
    rfl
  have hcut : lexeme? c (cs ++ more) = some (t.value, t.rest ++ more) := by
    by_cases hquote : c = '"'
    · subst hquote
      obtain ⟨body, value, hvalue, hbody, hrow⟩ := lexeme?_quote_iff.mp hcs
      have hbody' : cs ++ more = body ++ '"' :: (t.rest ++ more) :=
        (congrArg (· ++ more) hbody).trans (List.append_assoc ..)
      exact lexeme?_quote_iff.mpr ⟨body, value, hvalue, hbody', hrow⟩
    · rw [lexeme?_append hquote hmore, hcs]
      rfl
  rw [lexeme?] at hcut
  cases hl : lexeme c (cs ++ more) with
  | error f =>
    rw [hl] at hcut
    cases hcut
  | ok t' =>
    rw [hl] at hcut
    obtain ⟨hvalue, hrest⟩ := Prod.mk.inj (Option.some.inj hcut)
    have hwhole : t'.text ++ (t.rest ++ more) = t.text ++ (t.rest ++ more) :=
      calc t'.text ++ (t.rest ++ more)
        _ = t'.text ++ t'.rest := congrArg (t'.text ++ ·) hrest.symm
        _ = cs ++ more := t'.whole
        _ = t.text ++ (t.rest ++ more) := by rw [← List.append_assoc, t.whole]
    exact ⟨t', rfl, hvalue, List.append_cancel_right hwhole, hrest⟩

/-- A text whose gap only goes on from that of another one has the same tokens, further on. -/
theorem tokens_of_gap_eq {cs cs' skipped : List Char}
    (hrest : (gap false cs').rest = (gap false cs).rest)
    (htext : (gap false cs').text = skipped ++ (gap false cs).text) (start : Nat) :
    tokens start cs' = tokens (start + bytes skipped) cs := by
  have hstart : start + bytes (gap false cs').text =
      start + bytes skipped + bytes (gap false cs).text := by
    rw [htext, Text.bytes_append, Nat.add_assoc start]
  cases hg : (gap false cs).rest with
  | nil => rw [tokens_of_gap _ hg, tokens_of_gap _ (hrest.trans hg)]
  | cons c rest =>
    cases hl : lexeme c rest with
    | error f =>
      rw [tokens_of_lexeme_error _ hg hl, tokens_of_lexeme_error _ (hrest.trans hg) hl, hstart]
    | ok t =>
      rw [tokens_of_lexeme _ hg hl, tokens_of_lexeme _ (hrest.trans hg) hl, hstart]

theorem separated_line (more : List Char) : Separated ('\n' :: more) := by
  intro c hc
  cases hc
  decide

/-- **The tokens of a line and of the text after it.** -/
theorem tokens_line (more : List Char) : ∀ (start : Nat) (cs : List Char) (ts : List Token),
    tokens start cs = .ok ts →
      tokens start (cs ++ '\n' :: more) = (tokens (start + bytes cs + 1) more).map (ts ++ ·)
  | start, cs, ts, h => by
      cases hg : (gap false cs).rest with
      | nil =>
        rw [tokens_of_gap start hg] at h
        cases h
        obtain ⟨hrest, htext⟩ := gap_line more false cs hg
        have hskipped : (gap false (cs ++ '\n' :: more)).text =
            (cs ++ ['\n']) ++ (gap false more).text := htext.trans (List.append_cons ..)
        have hbytes : bytes (cs ++ ['\n']) = bytes cs + 1 := Text.bytes_append cs ['\n']
        rw [tokens_of_gap_eq hrest hskipped, hbytes, Nat.add_assoc start]
        cases tokens (start + (bytes cs + 1)) more <;> rfl
      | cons c rest =>
        cases hl : lexeme c rest with
        | error f =>
          rw [tokens_of_lexeme_error start hg hl] at h
          cases h
        | ok t =>
          rw [tokens_of_lexeme start hg hl] at h
          obtain ⟨us, hus, rfl⟩ := map_eq_ok_iff.mp h
          have hgap := gap_append ('\n' :: more) false cs (hg ▸ List.cons_ne_nil c rest)
          have hg' : (gap false (cs ++ '\n' :: more)).rest = c :: (rest ++ '\n' :: more) := by
            rw [hgap.rest, hg]
            rfl
          obtain ⟨t', hl', ht'⟩ := lexeme_append (separated_line more) hl
          have hlt : t.rest.length < cs.length := Nat.lt_of_le_of_lt t.rest_le (rest_lt_of_gap hg)
          have hcs : cs = (gap false cs).text ++ ((c :: t.text) ++ t.rest) := by
            rw [List.cons_append, t.whole, ← hg, (gap false cs).whole]
          have hbytes : start + bytes cs = start + bytes (gap false cs).text +
              bytes (c :: t.text) + bytes t.rest := by
            rw [congrArg bytes hcs, Text.bytes_append, Text.bytes_append]
            simp only [Nat.add_assoc]
          rw [tokens_of_lexeme start hg' hl', hgap.text, ht'.text, ht'.rest, ht'.value,
            tokens_line more _ t.rest us hus, hbytes]
          cases tokens _ more <;> rfl
  termination_by _ cs => cs.length

end Grammar

end FieldSelection
