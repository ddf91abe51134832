import FieldSelection.Proofs.Grammar.Strings
import FieldSelection.Proofs.Grammar.TokenOrder
import Mathlib.Data.List.TakeWhile

/-!
# What a text is made of

A text that is read into tokens is a row of pieces, a gap and the text of a token each, and a last
gap (`Laid`). The pieces tell the tokens (`tokens_eq_ok_iff`):

* what stands in a gap says nothing: blanks, commas and comments (`Ignorable`); only the last gap
  may end inside of a comment (`LastGap`);
* the text of a token is that token and nothing else (`Spells`), and a name or a number goes as far
  as it can (`Maximal`).

Where a token ends thus depends on what comes next for names and numbers only
(`lexeme?_split`, `lexeme?_join`). A point after a number is no exception: where a text is made of
pieces, it is the first point of a spread.
-/

namespace FieldSelection.Grammar

open Text (bytes isBlank)

/-! ## 1. Gaps -/

/-- Text that says nothing: blanks, commas, and comments with the end of their line. -/
inductive Ignorable : List Char → Prop where
  | nil : Ignorable []
  | blank {c : Char} {cs : List Char} (h : isBlank c = true ∨ c = ',') (rest : Ignorable cs) :
      Ignorable (c :: cs)
  | comment {line cs : List Char} (h : '\n' ∉ line) (rest : Ignorable cs) :
      Ignorable ('#' :: (line ++ '\n' :: cs))

/-- Text that says nothing at the end of a text, where a comment need not come to its end. -/
def LastGap (cs : List Char) : Prop :=
  ∃ front tail, cs = front ++ tail ∧ Ignorable front ∧
    (tail = [] ∨ ∃ line, tail = '#' :: line ∧ '\n' ∉ line)

variable {c : Char} {cs front rest line text : List Char} {k : Token.Kind}

theorem gap_hash (cs : List Char) : gap false ('#' :: cs) = (gap true cs).cons '#' := by
  rw [gap, if_neg (by decide), if_pos (by decide)]

theorem gap_comment (h : '\n' ∉ line) (cs : List Char) :
    (gap true (line ++ '\n' :: cs)).text = line ++ '\n' :: (gap false cs).text ∧
      (gap true (line ++ '\n' :: cs)).rest = (gap false cs).rest := by
  induction line with
  | nil => exact ⟨rfl, rfl⟩
  | cons c line ih =>
    obtain ⟨hc, hline⟩ := not_or.mp (mt List.mem_cons.mpr h)
    have hne : (c != '\n') = true := bne_iff_ne.mpr (Ne.symm hc)
    obtain ⟨htext, hrest⟩ := ih hline
    rw [List.cons_append, gap, hne]
    exact ⟨congrArg (c :: ·) htext, hrest⟩

theorem gap_open_comment (h : '\n' ∉ line) : (gap true line).rest = [] := by
  induction line with
  | nil => rfl
  | cons c line ih =>
    obtain ⟨hc, hline⟩ := not_or.mp (mt List.mem_cons.mpr h)
    have hne : (c != '\n') = true := bne_iff_ne.mpr (Ne.symm hc)
    rw [gap, hne]
    exact ih hline

/-- The gap at the front of a text takes all that says nothing there. -/
theorem gap_ignorable (h : Ignorable front) (cs : List Char) :
    (gap false (front ++ cs)).text = front ++ (gap false cs).text ∧
      (gap false (front ++ cs)).rest = (gap false cs).rest := by
  induction h with
  | nil => exact ⟨rfl, rfl⟩
  | @blank c front hc _ ih =>
    have hblank : (isBlank c || c == ',') = true := by simpa using hc
    rw [List.cons_append, gap, if_pos hblank]
    exact ⟨congrArg (c :: ·) ih.1, ih.2⟩
  | @comment line front hline _ ih =>
    obtain ⟨htext, hrest⟩ := gap_comment hline (front ++ cs)
    rw [List.cons_append, List.append_assoc, List.cons_append, gap_hash]
    refine ⟨?_, hrest.trans ih.2⟩
    calc '#' :: (gap true (line ++ '\n' :: (front ++ cs))).text
      _ = '#' :: (line ++ '\n' :: (front ++ (gap false cs).text)) := by rw [htext, ih.1]
      _ = '#' :: (line ++ '\n' :: front) ++ (gap false cs).text := by simp

theorem gap_lastGap (h : LastGap cs) : (gap false cs).rest = [] := by
  obtain ⟨front, tail, rfl, hfront, rfl | ⟨line, rfl, hline⟩⟩ := h
  · exact (gap_ignorable hfront []).2
  · rw [(gap_ignorable hfront _).2, gap_hash]
    exact (gap_open_comment hline :)

/-- A text is a last gap, or it goes on with a token after a gap. -/
theorem gap_or_token (cs : List Char) :
    LastGap cs ∨ ∃ front c rest, cs = front ++ c :: rest ∧ Ignorable front ∧
      startsGap c = false := by
  -- on the number of characters: a comment takes several of them
  induction hn : cs.length using Nat.strongRecOn generalizing cs with
  | ind n ih =>
    match cs with
    | [] => exact Or.inl ⟨[], [], rfl, .nil, Or.inl rfl⟩
    | c :: cs =>
      by_cases hblank : isBlank c = true ∨ c = ','
      · rcases ih cs.length (hn ▸ Nat.lt_succ_self _) cs rfl with
          ⟨front, tail, rfl, hfront, htail⟩ | ⟨front, c', rest, rfl, hfront, hc'⟩
        · exact Or.inl ⟨c :: front, tail, rfl, .blank hblank hfront, htail⟩
        · exact Or.inr ⟨c :: front, c', rest, rfl, .blank hblank hfront, hc'⟩
      by_cases hhash : c = '#'
      · subst hhash
        by_cases hmem : '\n' ∈ cs
        · obtain ⟨line, more, rfl, hline⟩ := List.eq_append_cons_of_mem hmem
          have hlt : more.length < n := by
            rw [← hn, List.length_cons, List.length_append, List.length_cons]
            omega
          rcases ih more.length hlt more rfl with
            ⟨front, tail, rfl, hfront, htail⟩ | ⟨front, c', rest, rfl, hfront, hc'⟩
          · exact Or.inl ⟨_, tail, by simp, .comment hline hfront, htail⟩
          · exact Or.inr ⟨_, c', rest, by simp, .comment hline hfront, hc'⟩
        · exact Or.inl ⟨[], _, rfl, .nil, Or.inr ⟨cs, rfl, hmem⟩⟩
      · refine Or.inr ⟨[], c, cs, rfl, .nil, ?_⟩
        simpa [startsGap, hhash] using hblank

theorem startsGap_of_ignorable (h : Ignorable cs) : ∀ c ∈ cs.head?, startsGap c = true := by
  intro c hc
  cases h with
  | nil => cases hc
  | blank h =>
    cases hc
    rcases h with h | rfl
    · simp [startsGap, h]
    · rfl
  | comment h =>
    cases hc
    rfl

theorem startsGap_of_lastGap (h : LastGap cs) : ∀ c ∈ cs.head?, startsGap c = true := by
  obtain ⟨front, tail, rfl, hfront, htail⟩ := h
  cases front with
  | cons c front => exact fun c' hc' => startsGap_of_ignorable hfront c' hc'
  | nil =>
    rcases htail with rfl | ⟨line, rfl, -⟩
    · nofun
    · rintro c ⟨⟩
      rfl

/-! ## 2. Where tokens end -/

/-- The text is one token of the kind, and nothing else. -/
def Spells (text : List Char) (k : Token.Kind) : Prop :=
  ∃ c cs, text = c :: cs ∧ startsGap c = false ∧ lexeme? c cs = some (k, [])

/-- The token does not go on: after a name there is no letter, digit or underscore, and after a
    number no digit. -/
def Maximal (k : Token.Kind) (rest : List Char) : Prop :=
  match k with
  | .name _ => ∀ c ∈ rest.head?, isNameChar c = false
  | .number _ => ∀ c ∈ rest.head?, c.isDigit = false
  | _ => True

/-- A point is followed by another one. -/
def SpreadAhead (rest : List Char) : Prop :=
  ∀ after, rest = '.' :: after → after.head? = some '.'

theorem head_dropWhile (p : Char → Bool) (cs : List Char) :
    ∀ c ∈ (cs.dropWhile p).head?, p c = false := by
  intro c hc
  have hhead := List.head?_dropWhile_not p cs
  rw [hc] at hhead
  simpa using hhead

theorem dropWhile_takeWhile (p : Char → Bool) (cs : List Char) :
    (cs.takeWhile p).dropWhile p = [] :=
  List.dropWhile_eq_nil_iff.mpr fun _ => List.mem_takeWhile_imp

/-- The digits of a literal and what follows them. -/
theorem lexeme?_number_eq {c : Char} (cs : List Char) (h : c = '-' ∨ c.isDigit = true) :
    lexeme? c cs =
      if (wholeDigits c cs).isEmpty then none
      else (fraction? (cs.dropWhile Char.isDigit)).bind fun f =>
        (numeral? (c == '-') (wholeDigits c cs) f.1).map (·, f.2) := by
  rw [lexeme?_number cs h, number_toOption]

theorem exists_number_of_numeral? {negative : Bool} {whole : List Char}
    {fraction : Option (List Char)} (h : numeral? negative whole fraction = some k) :
    ∃ n, k = .number n := by
  unfold numeral? at h
  split at h
  · cases h
  · obtain ⟨n, -, rfl⟩ := Option.map_eq_some_iff.mp h
    exact ⟨n, rfl⟩

/-- The fraction of a number, without the text after it. -/
theorem fraction?_split {f : Option (List Char)} (h : fraction? cs = some (f, rest))
    (hcs : ∀ c ∈ cs.head?, c.isDigit = false) :
    ∃ part, cs = part ++ rest ∧ fraction? part = some (f, []) ∧
      (∀ c ∈ part.head?, c.isDigit = false) ∧ ∀ c ∈ rest.head?, c.isDigit = false := by
  by_cases hpoint : cs.head? = some '.'
  · obtain ⟨after, rfl⟩ := List.head?_eq_some_iff.mp hpoint
    rw [fraction?_point] at h
    split at h
    · cases h
      exact ⟨[], rfl, rfl, nofun, hcs⟩
    split at h
    · cases h
    · rename_i hempty
      cases h
      refine ⟨'.' :: after.takeWhile Char.isDigit, ?_, ?_, ?_, head_dropWhile _ _⟩
      · rw [List.cons_append, List.takeWhile_append_dropWhile]
      · have hhead : (after.takeWhile Char.isDigit).head? ≠ some '.' := fun h =>
          absurd (List.mem_takeWhile_imp (List.mem_of_head? h)) (by decide)
        rw [fraction?_point, if_neg hhead, List.takeWhile_idem, if_neg hempty,
          dropWhile_takeWhile]
      · rintro c ⟨⟩
        rfl
  · rw [fraction?_of_head_ne hpoint] at h
    cases h
    exact ⟨[], rfl, rfl, nofun, hcs⟩

/-- The fraction of a number, ahead of other text. -/
theorem fraction?_join {f : Option (List Char)} (h : fraction? cs = some (f, []))
    (hrest : ∀ c ∈ rest.head?, c.isDigit = false) (hspread : SpreadAhead rest) :
    fraction? (cs ++ rest) = some (f, rest) := by
  match cs with
  | [] =>
    cases h
    by_cases hpoint : rest.head? = some '.'
    · obtain ⟨after, rfl⟩ := List.head?_eq_some_iff.mp hpoint
      rw [List.nil_append, fraction?_point, if_pos (hspread after rfl)]
    · exact fraction?_of_head_ne hpoint
  | c :: ds =>
    by_cases hc : c = '.'
    · subst hc
      rw [fraction?_point] at h
      split at h
      · cases h
      rename_i hhead
      split at h
      · cases h
      rename_i hempty
      obtain ⟨rfl, hend⟩ := Prod.mk.inj (Option.some.inj h)
      have hhead' : (ds ++ rest).head? ≠ some '.' := by
        cases ds with
        | nil => exact absurd rfl hempty
        | cons d ds => exact hhead
      rw [List.cons_append, fraction?_point, if_neg hhead', takeWhile_append_of_head hrest,
        if_neg hempty, dropWhile_append_of_head hrest, hend, List.nil_append]
    · rw [fraction?_of_head_ne (by simpa using hc)] at h
      cases h

theorem number_split {c : Char} (hc : c = '-' ∨ c.isDigit = true)
    (h : lexeme? c cs = some (k, rest)) :
    ∃ body, cs = body ++ rest ∧ lexeme? c body = some (k, []) ∧ Maximal k rest := by
  rw [lexeme?_number_eq cs hc] at h
  split at h
  · cases h
  rename_i hwhole
  obtain ⟨⟨f, rest⟩, hf, hk⟩ := Option.bind_eq_some_iff.mp h
  obtain ⟨k, hnumeral, hk⟩ := Option.map_eq_some_iff.mp hk
  cases hk
  obtain ⟨n, rfl⟩ := exists_number_of_numeral? hnumeral
  obtain ⟨part, hpart, hf, hhead, hrest⟩ := fraction?_split hf (head_dropWhile _ _)
  refine ⟨cs.takeWhile Char.isDigit ++ part, ?_, ?_, hrest⟩
  · rw [List.append_assoc, ← hpart, List.takeWhile_append_dropWhile]
  · have htake : (cs.takeWhile Char.isDigit ++ part).takeWhile Char.isDigit =
        cs.takeWhile Char.isDigit := by
      rw [takeWhile_append_of_head hhead, List.takeWhile_idem]
    have hdigits : wholeDigits c (cs.takeWhile Char.isDigit ++ part) = wholeDigits c cs := by
      rw [wholeDigits, wholeDigits, htake]
    rw [lexeme?_number_eq _ hc, hdigits, if_neg hwhole, dropWhile_append_of_head hhead,
      dropWhile_takeWhile, List.nil_append, hf, Option.bind_some, hnumeral]
    rfl

theorem number_join {c : Char} (hc : c = '-' ∨ c.isDigit = true)
    (h : lexeme? c cs = some (k, [])) (hmaximal : Maximal k rest) (hspread : SpreadAhead rest) :
    lexeme? c (cs ++ rest) = some (k, rest) := by
  rw [lexeme?_number_eq cs hc] at h
  split at h
  · cases h
  rename_i hwhole
  obtain ⟨⟨f, end'⟩, hf, hk⟩ := Option.bind_eq_some_iff.mp h
  obtain ⟨k, hnumeral, hk⟩ := Option.map_eq_some_iff.mp hk
  cases hk
  obtain ⟨n, rfl⟩ := exists_number_of_numeral? hnumeral
  have hdigits : wholeDigits c (cs ++ rest) = wholeDigits c cs := by
    rw [wholeDigits, wholeDigits, takeWhile_append_of_head hmaximal]
  rw [lexeme?_number_eq _ hc, hdigits, if_neg hwhole, dropWhile_append_of_head hmaximal,
    fraction?_join hf hmaximal hspread, Option.bind_some, hnumeral]
  rfl

theorem name_split {c : Char} (hc : isNameStart c = true) (h : lexeme? c cs = some (k, rest)) :
    ∃ body, cs = body ++ rest ∧ lexeme? c body = some (k, []) ∧ Maximal k rest := by
  rw [lexeme?_of_isNameStart cs hc] at h
  obtain ⟨rfl, rfl⟩ := Prod.mk.inj (Option.some.inj h)
  refine ⟨cs.takeWhile isNameChar, List.takeWhile_append_dropWhile.symm, ?_, head_dropWhile _ _⟩
  rw [lexeme?_of_isNameStart _ hc, List.takeWhile_idem, dropWhile_takeWhile]

theorem name_join {c : Char} (hc : isNameStart c = true) (h : lexeme? c cs = some (k, []))
    (hmaximal : Maximal k rest) : lexeme? c (cs ++ rest) = some (k, rest) := by
  rw [lexeme?_of_isNameStart cs hc] at h
  obtain ⟨rfl, hend⟩ := Prod.mk.inj (Option.some.inj h)
  rw [lexeme?_of_isNameStart _ hc, takeWhile_append_of_head hmaximal,
    dropWhile_append_of_head hmaximal, hend, List.nil_append]

/-- No other character starts a token of several characters. -/
theorem lexeme?_mark {c : Char} (cs : List Char) (hquote : c ≠ '"')
    (hnumber : ¬(c = '-' ∨ c.isDigit = true)) (hname : ¬isNameStart c = true) (hdot : c ≠ '.') :
    lexeme? c cs = (Mark.ofChar? c).map fun m => (.mark m, cs) := by
  have hnumber' : (c = '-' || c.isDigit) = false := by simpa using hnumber
  unfold lexeme? lexeme
  simp only [hquote, hnumber', hname, hdot, Bool.false_eq_true, ↓reduceIte]
  cases Mark.ofChar? c <;> rfl

/-- **A token and the text after it**: the token stands alone, and it does not go on. -/
theorem lexeme?_split {c : Char} (h : lexeme? c cs = some (k, rest)) :
    ∃ body, cs = body ++ rest ∧ lexeme? c body = some (k, []) ∧ Maximal k rest := by
  by_cases hquote : c = '"'
  · subst hquote
    obtain ⟨body, value, rfl, rfl, hrow⟩ := lexeme?_quote_iff.mp h
    exact ⟨body ++ ['"'], by simp, lexeme?_quote_iff.mpr ⟨body, value, rfl, rfl, hrow⟩, trivial⟩
  by_cases hnumber : c = '-' ∨ c.isDigit = true
  · exact number_split hnumber h
  by_cases hname : isNameStart c = true
  · exact name_split hname h
  by_cases hdot : c = '.'
  · subst hdot
    rw [lexeme?_dot] at h
    split at h
    · rename_i htwo
      cases h
      refine ⟨['.', '.'], ?_, rfl, trivial⟩
      rw [← htwo, List.take_append_drop]
    · cases h
  · rw [lexeme?_mark _ hquote hnumber hname hdot] at h
    obtain ⟨m, hm, hk⟩ := Option.map_eq_some_iff.mp h
    cases hk
    refine ⟨[], rfl, ?_, trivial⟩
    rw [lexeme?_mark _ hquote hnumber hname hdot, hm]
    rfl

/-- **A token stays a token with more text after it**, if it does not go on there. -/
theorem lexeme?_join {c : Char} (h : lexeme? c cs = some (k, [])) (hmaximal : Maximal k rest)
    (hspread : SpreadAhead rest) : lexeme? c (cs ++ rest) = some (k, rest) := by
  by_cases hquote : c = '"'
  · subst hquote
    obtain ⟨body, value, rfl, rfl, hrow⟩ := lexeme?_quote_iff.mp h
    exact lexeme?_quote_iff.mpr ⟨body, value, rfl, by simp, hrow⟩
  by_cases hnumber : c = '-' ∨ c.isDigit = true
  · exact number_join hnumber h hmaximal hspread
  by_cases hname : isNameStart c = true
  · exact name_join hname h hmaximal
  by_cases hdot : c = '.'
  · subst hdot
    rw [lexeme?_dot] at h
    split at h
    · rename_i htwo
      obtain ⟨rfl, hend⟩ := Prod.mk.inj (Option.some.inj h)
      have hcs : cs = ['.', '.'] := by rw [← List.take_append_drop 2 cs, htwo, hend]; rfl
      rw [hcs]
      rfl
    · cases h
  · rw [lexeme?_mark _ hquote hnumber hname hdot] at h ⊢
    obtain ⟨m, hm, hk⟩ := Option.map_eq_some_iff.mp h
    cases hk
    rw [hm]
    rfl

/-! ## 3. Pieces -/

/-- A gap, and the text and the kind of the token after it. -/
structure Piece where
  gap : List Char
  text : List Char
  kind : Token.Kind
  deriving DecidableEq, Repr

namespace Piece

/-- The characters of a piece. -/
def chars (p : Piece) : List Char := p.gap ++ p.text

/-- The tokens of pieces from an offset on. -/
def tokens : (start : Nat) → List Piece → List Token
  | _, [] => []
  | start, p :: ps =>
    ⟨p.kind, start + bytes p.gap⟩ :: tokens (start + bytes p.gap + bytes p.text) ps

theorem map_kind_tokens (start : Nat) (ps : List Piece) :
    (tokens start ps).map Token.kind = ps.map Piece.kind := by
  induction ps generalizing start with
  | nil => rfl
  | cons p ps ih => exact congrArg (p.kind :: ·) (ih _)

/-- The tokens of pieces that go on. -/
theorem tokens_append (start : Nat) (ps qs : List Piece) :
    tokens start (ps ++ qs) =
      tokens start ps ++ tokens (start + bytes (ps.flatMap chars)) qs := by
  induction ps generalizing start with
  | nil => rfl
  | cons p ps ih =>
    rw [List.cons_append, tokens, tokens, ih, List.flatMap_cons, chars, Text.bytes_append,
      Text.bytes_append, List.cons_append, Nat.add_assoc start, Nat.add_assoc start]

/-- The token of a piece in its place. -/
theorem getElem?_tokens (start : Nat) (ps : List Piece) (p : Piece) (qs : List Piece) :
    (tokens start (ps ++ p :: qs))[ps.length]? =
      some ⟨p.kind, start + bytes (ps.flatMap chars ++ p.gap)⟩ := by
  have hlength : (tokens start ps).length = ps.length := by
    simpa using congrArg List.length (map_kind_tokens start ps)
  rw [tokens_append, List.getElem?_append_right (Nat.le_of_eq hlength), hlength, Nat.sub_self,
    tokens, List.getElem?_cons_zero, Text.bytes_append, Nat.add_assoc]

end Piece

/-- A text is made of pieces and a last gap. -/
inductive Laid : List Piece → List Char → Prop where
  | last {cs : List Char} (h : LastGap cs) : Laid [] cs
  | piece {p : Piece} {ps : List Piece} {rest : List Char} (gap : Ignorable p.gap)
      (text : Spells p.text p.kind) (maximal : Maximal p.kind rest) (more : Laid ps rest) :
      Laid (p :: ps) (p.gap ++ (p.text ++ rest))

variable {p : Piece} {ps qs : List Piece} {start : Nat} {ts : List Token}

/-- In a text that is made of pieces, a point is the first one of a spread. -/
theorem spreadAhead_of_laid (h : Laid ps cs) : SpreadAhead cs := by
  intro after hcs
  cases h with
  | last h =>
    subst hcs
    exact absurd (startsGap_of_lastGap h '.' rfl) (by decide)
  | @piece p ps rest hgap htext =>
    obtain ⟨c, text, htext, -, hlex⟩ := htext
    rw [htext] at hcs
    cases hp : p.gap with
    | cons d gap =>
      rw [hp, List.cons_append] at hcs
      obtain rfl := (List.cons.inj hcs).1
      exact absurd (startsGap_of_ignorable hgap '.' (by rw [hp]; rfl)) (by decide)
    | nil =>
      rw [hp, List.nil_append, List.cons_append] at hcs
      obtain ⟨rfl, rfl⟩ := List.cons.inj hcs
      rw [lexeme?_dot] at hlex
      split at hlex
      · rename_i htwo
        cases text with
        | nil => cases htwo
        | cons d text => exact congrArg some (List.cons.inj htwo).1
      · cases hlex

/-- A gap goes up to what starts no gap. -/
theorem gap_token (hfront : Ignorable front) (hc : startsGap c = false) (cs : List Char) :
    (gap false (front ++ c :: cs)).text = front ∧
      (gap false (front ++ c :: cs)).rest = c :: cs := by
  obtain ⟨htext, hrest⟩ := gap_ignorable hfront (c :: cs)
  have htoken := gap_of_not_startsGap cs hc
  have hnone : (gap false (c :: cs)).text = [] :=
    List.append_cancel_right (htoken ▸ (gap false (c :: cs)).whole)
  rw [hnone, List.append_nil] at htext
  exact ⟨htext, hrest.trans htoken⟩

/-- The token after a gap, and the tokens after that. -/
theorem tokens_token (hfront : Ignorable front) (hc : startsGap c = false)
    (h : lexeme? c cs = some (k, rest)) (htext : cs = text ++ rest) (start : Nat) :
    tokens start (front ++ c :: cs) =
      (tokens (start + bytes front + bytes (c :: text)) rest).map
        (⟨k, start + bytes front⟩ :: ·) := by
  obtain ⟨hgap, hrest⟩ := gap_token hfront hc cs
  unfold lexeme? at h
  cases hlex : lexeme c cs with
  | error f =>
    rw [hlex] at h
    cases h
  | ok t =>
    rw [hlex] at h
    obtain ⟨rfl, rfl⟩ := Prod.mk.inj (Option.some.inj h)
    have htext : t.text = text := List.append_cancel_right (t.whole.trans htext)
    rw [tokens_of_lexeme start hrest hlex, hgap, htext]

/-- **Pieces are read into their tokens.** -/
theorem tokens_of_laid (h : Laid ps cs) (start : Nat) :
    tokens start cs = .ok (Piece.tokens start ps) := by
  induction h generalizing start with
  | last h => exact tokens_of_gap start (gap_lastGap h)
  | @piece p ps rest hgap htext hmaximal hmore ih =>
    obtain ⟨c, text, htext, hc, hlex⟩ := htext
    have hjoin := lexeme?_join hlex hmaximal (spreadAhead_of_laid hmore)
    rw [htext, List.cons_append, tokens_token hgap hc hjoin rfl, ih, Piece.tokens, htext]
    rfl

/-- **What is read into tokens is made of their pieces.** -/
theorem exists_laid_of_tokens : ∀ (start : Nat) (cs : List Char) (ts : List Token),
    tokens start cs = .ok ts → ∃ ps, Laid ps cs ∧ Piece.tokens start ps = ts
  | start, cs, ts, h => by
      rcases gap_or_token cs with hlast | ⟨front, c, rest, rfl, hfront, hc⟩
      · rw [tokens_of_gap start (gap_lastGap hlast)] at h
        cases h
        exact ⟨[], .last hlast, rfl⟩
      · have hrest := (gap_token hfront hc rest).2
        cases hlex : lexeme? c rest with
        | none =>
          unfold lexeme? at hlex
          cases hread : lexeme c rest with
          | error f =>
            rw [tokens_of_lexeme_error start hrest hread] at h
            cases h
          | ok t =>
            rw [hread] at hlex
            cases hlex
        | some r =>
          obtain ⟨k, after⟩ := r
          obtain ⟨text, rfl, halone, hmaximal⟩ := lexeme?_split hlex
          rw [tokens_token hfront hc hlex rfl] at h
          obtain ⟨us, hus, rfl⟩ := map_eq_ok_iff.mp h
          have hlt : after.length < (front ++ c :: (text ++ after)).length := by
            rw [List.length_append, List.length_cons, List.length_append]
            omega
          obtain ⟨ps, hps, rfl⟩ := exists_laid_of_tokens _ after us hus
          exact ⟨⟨front, c :: text, k⟩ :: ps, .piece hfront ⟨c, text, rfl, hc, halone⟩ hmaximal hps,
            rfl⟩
  termination_by _ cs => cs.length

/-- **Tokens are what pieces tell**, and nothing else is read into tokens. -/
theorem tokens_eq_ok_iff :
    tokens start cs = .ok ts ↔ ∃ ps, Laid ps cs ∧ Piece.tokens start ps = ts := by
  constructor
  · exact exists_laid_of_tokens start cs ts
  · rintro ⟨ps, h, rfl⟩
    exact tokens_of_laid h start

/-- **A text is made of pieces in one way.** -/
theorem Laid.unique (h : Laid ps cs) (h' : Laid qs cs) : ps = qs := by
  induction h generalizing qs with
  | last hlast =>
    have hnone := gap_lastGap hlast
    cases h' with
    | last => rfl
    | piece hgap htext =>
      obtain ⟨c, text, htext, hc, -⟩ := htext
      rw [htext, List.cons_append, (gap_token hgap hc _).2] at hnone
      cases hnone
  | @piece p ps rest hgap htext hmaximal hmore ih =>
    obtain ⟨front, _, k⟩ := p
    obtain ⟨c, text, rfl, hc, hlex⟩ := htext
    have hjoin := lexeme?_join hlex hmaximal (spreadAhead_of_laid hmore)
    obtain ⟨hfront, hrest⟩ := gap_token hgap hc (text ++ rest)
    generalize hcs : front ++ c :: (text ++ rest) = cs at hfront hrest
    replace h' : Laid qs cs := hcs ▸ h'
    cases h' with
    | last hlast => cases hrest.symm.trans (gap_lastGap hlast)
    | @piece q qs rest' hgap' htext' hmaximal' hmore' =>
      obtain ⟨front', _, k'⟩ := q
      obtain ⟨c', text', rfl, hc', hlex'⟩ := htext'
      have hjoin' := lexeme?_join hlex' hmaximal' (spreadAhead_of_laid hmore')
      obtain ⟨hfront', hrest'⟩ := gap_token hgap' hc' (text' ++ rest')
      obtain rfl : front = front' := hfront.symm.trans hfront'
      obtain ⟨rfl, heq⟩ := List.cons.inj (hrest.symm.trans hrest')
      rw [heq, hjoin'] at hjoin
      obtain ⟨rfl, rfl⟩ := Prod.mk.inj (Option.some.inj hjoin)
      obtain rfl : text = text' := List.append_cancel_right heq
      exact congrArg (_ :: ·) (ih hmore')

/-! ## 4. A text and its pieces -/

/-- The text is its pieces and the last gap. -/
theorem Laid.exists_last (h : Laid ps cs) :
    ∃ last, LastGap last ∧ cs = ps.flatMap Piece.chars ++ last := by
  induction h with
  | last h => exact ⟨_, h, rfl⟩
  | @piece p ps rest _ _ _ _ ih =>
    obtain ⟨last, hlast, rfl⟩ := ih
    exact ⟨last, hlast, by simp [Piece.chars]⟩

/-- The first piece of a text, and the text after it. -/
theorem laid_cons_iff : Laid (p :: ps) (p.gap ++ (p.text ++ rest)) ↔
    Ignorable p.gap ∧ Spells p.text p.kind ∧ Maximal p.kind rest ∧ Laid ps rest := by
  constructor
  · intro h
    generalize hcs : p.gap ++ (p.text ++ rest) = cs at h
    cases h with
    | piece hgap htext hmaximal hmore =>
      obtain rfl := List.append_cancel_left (List.append_cancel_left hcs)
      exact ⟨hgap, htext, hmaximal, hmore⟩
  · rintro ⟨hgap, htext, hmaximal, hmore⟩
    exact .piece hgap htext hmaximal hmore

theorem Laid.spells (h : Laid ps cs) : ∀ p ∈ ps, Spells p.text p.kind := by
  induction h with
  | last => nofun
  | piece _ htext _ _ ih => exact List.forall_mem_cons.mpr ⟨htext, ih⟩

/-- The text after the first pieces is made of those that are left. -/
theorem Laid.drop (h : Laid (ps ++ qs) cs) :
    ∃ rest, cs = ps.flatMap Piece.chars ++ rest ∧ Laid qs rest := by
  induction ps generalizing cs with
  | nil => exact ⟨cs, rfl, h⟩
  | cons p ps ih =>
    cases h with
    | piece _ _ _ hmore =>
      obtain ⟨rest, rfl, h⟩ := ih hmore
      exact ⟨rest, by simp [Piece.chars], h⟩

theorem tokens_of_spells (h : Spells text k) : tokens 0 text = .ok [⟨k, 0⟩] := by
  have hlast : LastGap [] := ⟨[], [], rfl, .nil, Or.inl rfl⟩
  have hmaximal : Maximal k [] := by cases k <;> simp [Maximal]
  have h := tokens_of_laid (.piece (p := ⟨[], text, k⟩) .nil h hmaximal (.last hlast)) 0
  rwa [List.append_nil] at h

/-- **Nothing is lost between tokens.** A text that is read into tokens is a row of gaps and texts
    of tokens. Each of these starts at the offset of its token, on the boundary of a character,
    reads as that token if it stands alone, and is as long as it can be. -/
theorem tokens_pieces {source : List Char} (h : tokens 0 source = .ok ts) :
    ∃ (ps : List Piece) (last : List Char), source = ps.flatMap Piece.chars ++ last ∧ LastGap last ∧
      ts.map Token.kind = ps.map Piece.kind ∧ ts.Pairwise (·.offset < ·.offset) ∧
      ∀ before p after, ps = before ++ p :: after →
        Ignorable p.gap ∧ Spells p.text p.kind ∧ tokens 0 p.text = .ok [⟨p.kind, 0⟩] ∧
        (∃ t, ts[before.length]? = some t ∧ t.kind = p.kind ∧
          Text.dropBytes? t.offset source =
            some (p.text ++ (after.flatMap Piece.chars ++ last))) ∧
        Maximal p.kind (after.flatMap Piece.chars ++ last) := by
  obtain ⟨ps, hlaid, rfl⟩ := tokens_eq_ok_iff.mp h
  obtain ⟨last, hlast, hsource⟩ := hlaid.exists_last
  have horder := (inOrder_tokens 0 _ _ h).pairwise
  refine ⟨ps, last, hsource, hlast, Piece.map_kind_tokens 0 ps, horder, ?_⟩
  rintro before p after rfl
  generalize hrest : after.flatMap Piece.chars ++ last = rest
  have hplace : source = before.flatMap Piece.chars ++ (p.gap ++ (p.text ++ rest)) := by
    rw [hsource, ← hrest]
    simp [Piece.chars]
  obtain ⟨rest', hrest', hpiece⟩ := hlaid.drop
  obtain rfl := List.append_cancel_left (hplace.symm.trans hrest')
  obtain ⟨hgap, htext, hmaximal, -⟩ := laid_cons_iff.mp hpiece
  have hdrop : Text.dropBytes? (0 + bytes (before.flatMap Piece.chars ++ p.gap)) source =
      some (p.text ++ rest) := by
    rw [hplace, ← List.append_assoc, Nat.zero_add, Text.dropBytes?_append]
  have htoken := Piece.getElem?_tokens 0 before p after
  exact ⟨hgap, htext, tokens_of_spells htext, ⟨_, htoken, rfl, hdrop⟩, hmaximal⟩

/-- Numbers, names and a spread with nothing between them, and a comment that does not end. -/
theorem tokens_pieces_touching :
    ∃ ts, tokens 0 "1...b,2c#".toList = .ok ts ∧
      ∃ (ps : List Piece) (last : List Char), "1...b,2c#".toList = ps.flatMap Piece.chars ++ last ∧
        LastGap last ∧ ts.map Token.kind = ps.map Piece.kind := by
  have htokens : tokens 0 "1...b,2c#".toList = .ok
      [⟨.number (.integer 1), 0⟩, ⟨.spread, 1⟩, ⟨.name "b", 4⟩, ⟨.number (.integer 2), 6⟩,
        ⟨.name "c", 7⟩] := by decide +kernel
  obtain ⟨ps, last, hsource, hlast, hkinds, -⟩ := tokens_pieces htokens
  exact ⟨_, htokens, ps, last, hsource, hlast, hkinds⟩

end FieldSelection.Grammar
