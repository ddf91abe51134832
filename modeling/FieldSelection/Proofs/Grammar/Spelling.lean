import FieldSelection.Proofs.Grammar.Numerals
import FieldSelection.Proofs.Grammar.Seams
import FieldSelection.Proofs.Selection.Parsed

/-!
# Texts for tokens

Each token of a text may stand alone in a text of its own (`Writable`, `writable_of_kinds?`). Tokens
that may are the tokens of some text, one on each line (`exists_text`).
-/

namespace FieldSelection.Grammar

/-- Some text is this token and nothing else. -/
def Writable (k : Token.Kind) : Prop :=
  ∃ cs, kinds? cs = some [k]

theorem kinds?_nil : kinds? [] = some [] :=
  kinds?_of_gap rfl

/-! ## 1. Single tokens -/

theorem writable_mark (m : Mark) : Writable (.mark m) :=
  ⟨_, (kinds?_mark m []).trans (by rw [kinds?_nil]; rfl)⟩

theorem writable_spread : Writable .spread :=
  ⟨_, (kinds?_spread []).trans (by rw [kinds?_nil]; rfl)⟩

theorem writable_string (s : String) : Writable (.string s) :=
  ⟨_, (kinds?_quoted s []).trans (by rw [kinds?_nil]; rfl)⟩

theorem writable_name {word : String} (h : isIdentifier word.toList = true) :
    Writable (.name word) := by
  have hend : Separated ([] : List Char) := by simp [Separated]
  exact ⟨_, (kinds?_name h hend).trans (by rw [kinds?_nil]; rfl)⟩

/-- The number of a literal is written as the literal. -/
theorem writable_of_numeral? {negative : Bool} {whole : List Char}
    {fraction : Option (List Char)} {k : Token.Kind}
    (hwhole : ∀ c ∈ whole, c.isDigit = true) (hne : whole ≠ [])
    (hfraction : ∀ ds, fraction = some ds → (∀ c ∈ ds, c.isDigit = true) ∧ ds ≠ [])
    (h : numeral? negative whole fraction = some k) : Writable k := by
  cases fraction with
  | none => exact ⟨_, (kinds?_integer negative hwhole hne).trans (by rw [h]; rfl)⟩
  | some ds =>
    obtain ⟨hds, hne'⟩ := hfraction ds rfl
    exact ⟨_, (kinds?_decimal negative hwhole hne hds hne').trans (by rw [h]; rfl)⟩

/-- The digits of a fraction. -/
theorem isDigit_of_fraction? {cs ds rest : List Char} (h : fraction? cs = some (some ds, rest)) :
    (∀ c ∈ ds, c.isDigit = true) ∧ ds ≠ [] := by
  unfold fraction? at h
  split at h
  · split at h
    · cases h
    split at h
    · cases h
    · rename_i hempty
      cases h
      exact ⟨fun c hc => (List.mem_takeWhile_imp hc), by simpa using hempty⟩
  · cases h

/-- The digits of a number ahead of its point. -/
theorem isDigit_of_mem_wholeDigits {c : Char} (hc : c = '-' ∨ c.isDigit = true)
    {cs : List Char} : ∀ d ∈ wholeDigits c cs, d.isDigit = true := by
  intro d hd
  unfold wholeDigits at hd
  split at hd
  · exact List.mem_takeWhile_imp hd
  · rename_i hminus
    rcases List.mem_cons.mp hd with rfl | hd
    · exact hc.resolve_left hminus
    · exact List.mem_takeWhile_imp hd

/-- A token that a text starts with may stand alone. -/
theorem writable_of_lexeme? {c : Char} {cs : List Char} {t : Token.Kind × List Char}
    (h : lexeme? c cs = some t) : Writable t.1 := by
  by_cases hnumber : c = '-' ∨ c.isDigit = true
  · rw [lexeme?_number cs hnumber, number_toOption] at h
    split at h
    · cases h
    · rename_i hne
      obtain ⟨f, hf, h⟩ := Option.bind_eq_some_iff.mp h
      obtain ⟨k, hk, rfl⟩ := Option.map_eq_some_iff.mp h
      refine writable_of_numeral? (isDigit_of_mem_wholeDigits hnumber) (by simpa using hne) ?_ hk
      intro ds hds
      exact isDigit_of_fraction? (hf.trans (by rw [← hds]))
  by_cases hname : isNameStart c = true
  · have hlegal := legal_of_lexeme? h
    rw [lexeme?_of_isNameStart cs hname] at h
    cases h
    exact writable_name hlegal
  by_cases hdot : c = '.'
  · rw [hdot, lexeme?_dot] at h
    split at h
    · cases h
      exact writable_spread
    · cases h
  have hno : (c = '-' || c.isDigit) = false := by simpa using hnumber
  obtain ⟨u, hu, rfl⟩ := Option.map_eq_some_iff.mp h
  unfold lexeme at hu
  simp only [hno, hname, hdot, Bool.false_eq_true, ↓reduceIte] at hu
  split at hu
  · cases hs : stringRest 1 cs <;> rw [hs] at hu <;> cases hu
    exact writable_string _
  · cases hm : Mark.ofChar? c <;> rw [hm] at hu <;> cases hu
    exact writable_mark _

/-! ## 2. Texts -/

/-- The tokens of a text may stand alone. -/
theorem writable_of_kinds? : ∀ {cs : List Char} {ks : List Token.Kind}, kinds? cs = some ks →
    ∀ k ∈ ks, Writable k
  | cs, ks, h => by
      cases hg : (gap false cs).rest with
      | nil =>
        rw [kinds?_of_gap hg] at h
        cases h
        exact List.forall_mem_nil _
      | cons c rest =>
        rw [kinds?_of_rest hg] at h
        obtain ⟨t, ht, h⟩ := Option.bind_eq_some_iff.mp h
        obtain ⟨ls, hls, rfl⟩ := Option.map_eq_some_iff.mp h
        have hlt : t.2.length < cs.length :=
          Nat.lt_of_le_of_lt (lexeme?_rest_suffix ht).length_le (rest_lt_of_gap hg)
        exact List.forall_mem_cons.mpr ⟨writable_of_lexeme? ht, writable_of_kinds? hls⟩
  termination_by cs => cs.length

/-- The tokens of a line and of the text after it. -/
theorem kinds?_line {cs more : List Char} {ks ls : List Token.Kind} (h : kinds? cs = some ks)
    (hmore : kinds? more = some ls) : kinds? (cs ++ '\n' :: more) = some (ks ++ ls) := by
  obtain ⟨ts, hts, rfl⟩ := kinds?_eq_some_iff.mp h
  have hafter := kinds_tokens (0 + Text.bytes cs + 1) more
  rw [hmore] at hafter
  obtain ⟨us, hus, rfl⟩ := Option.map_eq_some_iff.mp hafter
  rw [kinds?, tokens_line more 0 cs ts hts]
  cases htokens : tokens (0 + Text.bytes cs + 1) more with
  | error f =>
    rw [htokens] at hus
    cases hus
  | ok vs =>
    rw [htokens] at hus
    cases hus
    exact congrArg some List.map_append

/-- **Tokens that may stand alone are the tokens of some text.** -/
theorem exists_text : ∀ {ks : List Token.Kind}, (∀ k ∈ ks, Writable k) →
    ∃ cs, kinds? cs = some ks
  | [], _ => ⟨[], kinds?_nil⟩
  | k :: ks, h => by
      obtain ⟨hk, hks⟩ := List.forall_mem_cons.mp h
      obtain ⟨cs, hcs⟩ := hk
      obtain ⟨more, hmore⟩ := exists_text hks
      exact ⟨cs ++ '\n' :: more, kinds?_line hcs hmore⟩

end FieldSelection.Grammar
