import FieldSelection.Grammar.Document
import FieldSelection.Proofs.Grammar.Scanning
import FieldSelection.Proofs.Outcome

/-!
# Tokens in their order

* The tokens of a text stand one after another, all of them ahead of its end (`inOrder_tokens`). So
  where less of them is left, a failure shows further on (`here_lt_here`).
* What is wrong with the characters of a text is wrong with a lexeme; whatever the grammar asks for
  is not looked at (`lexical_of_tokens`).
-/

namespace FieldSelection

namespace Grammar

open Text (bytes)

/-! ## 1. Offsets -/

/-- The tokens stand one after another, from `start` on and ahead of `stop`. -/
structure InOrder (start stop : Nat) (ts : List Token) : Prop where
  pairwise : ts.Pairwise (·.offset < ·.offset)
  within : ∀ t ∈ ts, start ≤ t.offset ∧ t.offset < stop

theorem InOrder.cons {start next stop : Nat} {t : Token} {ts : List Token}
    (h : InOrder next stop ts) (hstart : start ≤ t.offset) (hnext : t.offset < next)
    (hstop : next ≤ stop) : InOrder start stop (t :: ts) := by
  refine ⟨List.pairwise_cons.mpr ⟨fun u hu => ?_, h.pairwise⟩, fun u hu => ?_⟩
  · exact Nat.lt_of_lt_of_le hnext (h.within u hu).1
  · rcases List.mem_cons.mp hu with rfl | hu
    · exact ⟨hstart, Nat.lt_of_lt_of_le hnext hstop⟩
    · have := h.within u hu
      omega

/-- **The tokens of a text stand in order**, each where its first character is. -/
theorem inOrder_tokens : ∀ (start : Nat) (cs : List Char) (ts : List Token),
    tokens start cs = .ok ts → InOrder start (start + bytes cs) ts
  | start, cs, ts, h => by
      cases hg : (gap false cs).rest with
      | nil =>
        rw [tokens_of_gap start hg] at h
        cases h
        exact ⟨.nil, by simp⟩
      | cons c rest =>
        cases hl : lexeme c rest with
        | error f =>
          rw [tokens_of_lexeme_error start hg hl] at h
          cases h
        | ok t =>
          rw [tokens_of_lexeme start hg hl] at h
          obtain ⟨us, hus, rfl⟩ := map_eq_ok_iff.mp h
          have hlt : t.rest.length < cs.length := Nat.lt_of_le_of_lt t.rest_le (rest_lt_of_gap hg)
          have hbytes : bytes cs =
              bytes (gap false cs).text + (bytes (c :: t.text) + bytes t.rest) := by
            rw [← Text.bytes_append, ← Text.bytes_append, List.cons_append, t.whole, ← hg,
              (gap false cs).whole]
          have hpos : 0 < bytes (c :: t.text) := Nat.add_pos_left c.utf8Size_pos _
          have ih := inOrder_tokens _ t.rest us hus
          have hstop : start + bytes (gap false cs).text + bytes (c :: t.text) + bytes t.rest =
              start + bytes cs := by omega
          rw [hstop] at ih
          exact ih.cons (Nat.le_add_right _ _) (Nat.lt_add_of_pos_right hpos) (by omega)
  termination_by _ cs => cs.length

theorem InOrder.suffix {start stop : Nat} {ts us : List Token} (h : InOrder start stop ts)
    (hus : us <:+ ts) : InOrder start stop us :=
  ⟨h.pairwise.sublist hus.sublist, fun t ht => h.within t (hus.mem ht)⟩

variable {b : Bounds} {start : Nat} {ts us vs : List Token}

theorem here_lt_stop (h : InOrder start b.stop ts) (hne : ts ≠ []) : b.here ts < b.stop := by
  obtain ⟨t, rest, rfl⟩ := List.exists_cons_of_ne_nil hne
  exact (h.within t List.mem_cons_self).2

theorem here_le_stop (h : InOrder start b.stop ts) : b.here ts ≤ b.stop := by
  cases ts with
  | nil => exact Nat.le_refl _
  | cons t ts => exact Nat.le_of_lt (here_lt_stop h (List.cons_ne_nil t ts))

/-- **Where fewer tokens are left, it is further on.** -/
theorem here_lt_here (h : InOrder start b.stop ts) (hus : us <:+ ts) (hvs : vs <:+ ts)
    (hlt : us.length < vs.length) : b.here vs < b.here us := by
  obtain ⟨v, rest, rfl⟩ := List.exists_cons_of_length_pos (Nat.zero_lt_of_lt hlt)
  have hrest : us <:+ rest :=
    List.suffix_of_suffix_length_le hus ((List.suffix_cons v rest).trans hvs)
      (Nat.le_of_lt_succ hlt)
  have horder := h.suffix hvs
  cases us with
  | nil => exact (horder.within v List.mem_cons_self).2
  | cons u us =>
    exact (List.pairwise_cons.mp horder.pairwise).1 u (hrest.mem List.mem_cons_self)

/-- Tokens at the same offset are the same. -/
theorem eq_of_here_eq (h : InOrder start b.stop ts) (hus : us <:+ ts) (hvs : vs <:+ ts)
    (heq : b.here us = b.here vs) : us = vs := by
  have hlength : us.length = vs.length := by
    rcases Nat.lt_trichotomy us.length vs.length with hlt | heq' | hlt
    · exact absurd heq.symm (Nat.ne_of_lt (here_lt_here h hus hvs hlt))
    · exact heq'
    · exact absurd heq (Nat.ne_of_lt (here_lt_here h hvs hus hlt))
  exact (List.suffix_of_suffix_length_le hus hvs (Nat.le_of_eq hlength)).eq_of_length hlength

/-! ## 2. Faults -/

end Grammar

/-- What is wrong with the characters of a lexeme. -/
inductive Fault.Lexical : Fault → Prop where
  | unterminatedString : Lexical .unterminatedString
  | invalidEscape (text : String) : Lexical (.invalidEscape text)
  | invalidNumber (text : String) : Lexical (.invalidNumber text)
  | unexpectedCharacter (c : Char) : Lexical (.unexpectedCharacter c)

namespace Grammar

open Text (bytes)

theorem lexical_of_stringRest {start : Nat} {cs : List Char} {f : Failure}
    (h : stringRest start cs = .error f) : f.fault.Lexical := by
  -- on the number of characters: an escape takes several of them
  induction hn : cs.length using Nat.strongRecOn generalizing start cs with
  | ind n ih =>
    match cs with
    | [] =>
      rw [stringRest.eq_def] at h
      cases h
      exact .unterminatedString
    | c :: rest =>
      rw [stringRest.eq_def] at h
      simp only at h
      split at h
      · cases h
      split at h
      · cases h
        exact .unterminatedString
      split at h
      · split at h
        · cases h
          exact .unterminatedString
        · rename_i e after
          split at h
          · cases h
            exact .invalidEscape _
          · rename_i t _
            have hlt : t.rest.length < (c :: e :: after).length := Nat.lt_succ_of_le t.rest_le
            split at h
            · rename_i hs
              cases h
              exact ih _ (hn ▸ hlt) hs rfl
            · cases h
      · split at h
        · rename_i hs
          cases h
          exact ih _ (hn ▸ Nat.lt_succ_self rest.length) hs rfl
        · cases h

theorem lexical_of_numberOf {negative : Bool} {whole : List Char} {fraction : Option (List Char)}
    {text : List Char} {f : Failure} (h : numberOf negative whole fraction text = .error f) :
    f.fault.Lexical := by
  unfold numberOf at h
  split at h
  · cases h
    exact .invalidNumber _
  · split at h
    · cases h
    · cases h
      exact .invalidNumber _

theorem lexical_of_number {c : Char} {cs : List Char} {f : Failure}
    (h : number c cs = .error f) : f.fault.Lexical := by
  unfold number at h
  simp only at h
  generalize (if c = '-' then (takeWhile Char.isDigit cs).text
    else c :: (takeWhile Char.isDigit cs).text) = whole at h
  split at h
  · cases h
    exact .invalidNumber _
  split at h
  · split at h
    · exact lexical_of_numberOf (map_eq_error_iff.mp h)
    split at h
    · cases h
      exact .invalidNumber _
    · exact lexical_of_numberOf (map_eq_error_iff.mp h)
  · exact lexical_of_numberOf (map_eq_error_iff.mp h)

theorem lexical_of_lexeme {c : Char} {cs : List Char} {f : Failure}
    (h : lexeme c cs = .error f) : f.fault.Lexical := by
  unfold lexeme at h
  split at h
  · exact lexical_of_stringRest (map_eq_error_iff.mp h)
  split at h
  · exact lexical_of_number h
  split at h
  · split at h
    · cases h
    · cases h
      exact .unexpectedCharacter c
  split at h
  · cases h
  · split at h
    · cases h
    · cases h
      exact .unexpectedCharacter c

/-- **Characters that make no tokens** are wrong in a lexeme. -/
theorem lexical_of_tokens : ∀ (start : Nat) (cs : List Char) (f : Failure),
    tokens start cs = .error f → f.fault.Lexical
  | start, cs, f, h => by
      cases hg : (gap false cs).rest with
      | nil =>
        rw [tokens_of_gap start hg] at h
        cases h
      | cons c rest =>
        cases hl : lexeme c rest with
        | error f' =>
          rw [tokens_of_lexeme_error start hg hl] at h
          cases h
          exact lexical_of_lexeme (f := f') hl
        | ok t =>
          rw [tokens_of_lexeme start hg hl] at h
          have hlt : t.rest.length < cs.length := Nat.lt_of_le_of_lt t.rest_le (rest_lt_of_gap hg)
          exact lexical_of_tokens _ t.rest f (map_eq_error_iff.mp h)
  termination_by _ cs => cs.length

end Grammar

end FieldSelection
