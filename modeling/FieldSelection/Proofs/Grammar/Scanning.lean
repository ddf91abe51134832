import FieldSelection.Grammar.Lexeme

/-!
# What a text says

What a text says is the kinds of its tokens, wherever it starts (`kinds?`, `kinds_tokens`). This
file takes a text apart from its front:

* gaps say nothing (`kinds?_blank`), and marks, spreads and names say themselves (`kinds?_mark`,
  `kinds?_spread`, `kinds?_name`). A name has to end there;
* a text without gaps and strings, such as a number, says the same with more text after it, if no
  name, number or spread goes on there (`Separated`, `kinds?_append`).
-/

namespace FieldSelection.Grammar

open Text (bytes isBlank)

/-- The kinds of the tokens of a text, if all of it is made of tokens. -/
def kinds? (cs : List Char) : Option (List Token.Kind) :=
  (tokens 0 cs).toOption.map (List.map Token.kind)

theorem kinds?_eq_some_iff {cs : List Char} {ks : List Token.Kind} :
    kinds? cs = some ks ↔ ∃ ts, tokens 0 cs = .ok ts ∧ ts.map Token.kind = ks := by
  rw [kinds?]
  cases tokens 0 cs <;> simp [Except.toOption]

/-- The token at the front of a text that starts with `c`, and the text after it. -/
def lexeme? (c : Char) (cs : List Char) : Option (Token.Kind × List Char) :=
  (lexeme c cs).toOption.map fun t => (t.value, t.rest)

/-- Kinds, with others after them. -/
def andThen (ks ls : Option (List Token.Kind)) : Option (List Token.Kind) :=
  ks.bind fun ks => ls.map (ks ++ ·)

/-! ## 1. One token after another -/

theorem tokens_of_gap {cs : List Char} (start : Nat) (h : (gap false cs).rest = []) :
    tokens start cs = .ok [] := by
  rw [tokens]
  split
  · rfl
  · rename_i hg
    rw [h] at hg
    cases hg

theorem tokens_of_lexeme_error {cs rest : List Char} {c : Char} {f : Failure} (start : Nat)
    (h : (gap false cs).rest = c :: rest) (hl : lexeme c rest = .error f) :
    tokens start cs = .error ⟨f.fault, start + bytes (gap false cs).text + f.offset⟩ := by
  rw [tokens]
  split
  · rename_i hg
    rw [h] at hg
    cases hg
  · rename_i hg
    rw [h] at hg
    cases hg
    rw [hl]

theorem tokens_of_lexeme {cs rest : List Char} {c : Char} {t : Taken Token.Kind rest} (start : Nat)
    (h : (gap false cs).rest = c :: rest) (hl : lexeme c rest = .ok t) :
    tokens start cs =
      (tokens (start + bytes (gap false cs).text + bytes (c :: t.text)) t.rest).map
        (⟨t.value, start + bytes (gap false cs).text⟩ :: ·) := by
  rw [tokens]
  split
  · rename_i hg
    rw [h] at hg
    cases hg
  · rename_i hg
    rw [h] at hg
    cases hg
    rw [hl]
    simp only
    split <;> rename_i he <;> rw [he] <;> rfl

theorem kinds_map_cons (r : Except Failure (List Token)) (k : Token.Kind) (o : Nat) :
    (r.map (⟨k, o⟩ :: ·)).toOption.map (List.map Token.kind) =
      (r.toOption.map (List.map Token.kind)).map (k :: ·) := by
  cases r <;> rfl

theorem rest_lt_of_gap {cs rest : List Char} {c : Char} (h : (gap false cs).rest = c :: rest) :
    rest.length < cs.length := by
  have hle := (gap false cs).rest_le
  rw [h, List.length_cons] at hle
  omega

/-- Where a text starts does not matter for the kinds of its tokens. -/
theorem kinds_tokens : ∀ (start : Nat) (cs : List Char),
    (tokens start cs).toOption.map (List.map Token.kind) = kinds? cs
  | start, cs => by
      rw [kinds?]
      cases hg : (gap false cs).rest with
      | nil => rw [tokens_of_gap start hg, tokens_of_gap 0 hg]
      | cons c rest =>
        cases hl : lexeme c rest with
        | error f => rw [tokens_of_lexeme_error start hg hl, tokens_of_lexeme_error 0 hg hl]; rfl
        | ok t =>
          have hlt : t.rest.length < cs.length := Nat.lt_of_le_of_lt t.rest_le (rest_lt_of_gap hg)
          rw [tokens_of_lexeme start hg hl, tokens_of_lexeme 0 hg hl, kinds_map_cons,
            kinds_map_cons, kinds_tokens _ t.rest, kinds_tokens _ t.rest]
  termination_by _ cs => cs.length

/-- A text that is a gap says nothing. -/
theorem kinds?_of_gap {cs : List Char} (h : (gap false cs).rest = []) : kinds? cs = some [] := by
  rw [kinds?, tokens_of_gap 0 h]
  rfl

/-- A text says what its first token is, and what the text after that says. -/
theorem kinds?_of_rest {cs rest : List Char} {c : Char} (h : (gap false cs).rest = c :: rest) :
    kinds? cs = (lexeme? c rest).bind fun t => (kinds? t.2).map (t.1 :: ·) := by
  rw [kinds?]
  cases hl : lexeme c rest with
  | error f =>
    rw [tokens_of_lexeme_error 0 h hl, lexeme?, hl]
    rfl
  | ok t =>
    rw [tokens_of_lexeme 0 h hl, kinds_map_cons, kinds_tokens, lexeme?, hl]
    rfl

/-! ## 2. Gaps -/

/-- Whether a character may stand in a gap, as a blank, a comma or the start of a comment. -/
def startsGap (c : Char) : Bool := isBlank c || c == ',' || c == '#'

theorem gap_of_blank {c : Char} (cs : List Char) (h : (isBlank c || c == ',') = true) :
    (gap false (c :: cs)).rest = (gap false cs).rest := by
  rw [gap, if_pos h]
  rfl

theorem gap_of_not_startsGap {c : Char} (cs : List Char) (h : startsGap c = false) :
    (gap false (c :: cs)).rest = c :: cs := by
  rw [startsGap, Bool.or_eq_false_iff] at h
  rw [gap, if_neg (by simp [h.1]), if_neg (by simp [h.2])]

/-- Blanks and commas say nothing. -/
theorem kinds?_blank {c : Char} (cs : List Char) (h : (isBlank c || c == ',') = true) :
    kinds? (c :: cs) = kinds? cs := by
  cases hg : (gap false cs).rest with
  | nil => rw [kinds?_of_gap hg, kinds?_of_gap ((gap_of_blank cs h).trans hg)]
  | cons c' rest => rw [kinds?_of_rest hg, kinds?_of_rest ((gap_of_blank cs h).trans hg)]

/-- A text that starts with a token. -/
theorem kinds?_cons {c : Char} (cs : List Char) (h : startsGap c = false) :
    kinds? (c :: cs) = (lexeme? c cs).bind fun t => (kinds? t.2).map (t.1 :: ·) :=
  kinds?_of_rest (gap_of_not_startsGap cs h)

/-! ## 3. Marks and the spread -/

theorem kinds?_mark (m : Mark) (cs : List Char) :
    kinds? (m.char :: cs) = (kinds? cs).map (.mark m :: ·) := by
  have hgap : startsGap m.char = false := by cases m <;> decide
  have hlex : lexeme? m.char cs = some (.mark m, cs) := by cases m <;> rfl
  rw [kinds?_cons cs hgap, hlex]
  rfl

theorem kinds?_spread (cs : List Char) :
    kinds? ('.' :: '.' :: '.' :: cs) = (kinds? cs).map (.spread :: ·) := by
  rw [kinds?_cons _ (by decide)]
  rfl

/-! ## 4. Names -/

/-- No name, number or spread goes on here. -/
def Separated (cs : List Char) : Prop :=
  ∀ c ∈ cs.head?, isNameChar c = false ∧ c ≠ '.'

theorem toNat_of_isDigit {c : Char} (h : c.isDigit = true) : 48 ≤ c.toNat ∧ c.toNat ≤ 57 := by
  simpa [Char.isDigit, UInt32.le_iff_toNat_le] using h

theorem toNat_of_isNameStart {c : Char} (h : isNameStart c = true) :
    65 ≤ c.toNat ∧ c.toNat ≤ 122 := by
  rw [isNameStart, Bool.or_eq_true, beq_iff_eq] at h
  rcases h with h | rfl
  · rcases (Bool.or_eq_true _ _).mp h with h | h
    · obtain ⟨hlow, hhigh⟩ : c.val ≥ 'A'.val ∧ c.val ≤ 'Z'.val := of_decide_eq_true h
      have hhigh' : c.toNat ≤ 90 := hhigh
      exact ⟨hlow, by omega⟩
    · obtain ⟨hlow, hhigh⟩ := (Bool.and_eq_true _ _).mp h
      have hlow' : 97 ≤ c.toNat := of_decide_eq_true hlow
      exact ⟨by omega, of_decide_eq_true hhigh⟩
  · decide

/-- Nothing between the digits and the letters starts a gap. -/
theorem startsGap_of_toNat {c : Char} (hlow : 48 ≤ c.toNat) (hhigh : c.toNat ≤ 122) :
    startsGap c = false := by
  have hcomma : c ≠ ',' := by
    rintro rfl
    exact absurd hlow (by decide)
  have hhash : c ≠ '#' := by
    rintro rfl
    exact absurd hlow (by decide)
  simp [startsGap, isBlank, Text.blankRanges, hcomma, hhash]
  omega

theorem startsGap_of_isNameStart {c : Char} (h : isNameStart c = true) : startsGap c = false := by
  obtain ⟨hlow, hhigh⟩ := toNat_of_isNameStart h
  exact startsGap_of_toNat (by omega) hhigh

theorem isNameChar_of_isDigit {c : Char} (h : c.isDigit = true) : isNameChar c = true := by
  simp [isNameChar, Char.isAlphanum, h]

/-- A name starts with nothing that starts another token. -/
theorem lexeme?_of_isNameStart {c : Char} (cs : List Char) (h : isNameStart c = true) :
    lexeme? c cs = some (.name (String.ofList (c :: cs.takeWhile isNameChar)),
      cs.dropWhile isNameChar) := by
  have hdigit : c.isDigit = false := by
    rw [Bool.eq_false_iff]
    intro hd
    have hlow := (toNat_of_isNameStart h).1
    have hhigh := (toNat_of_isDigit hd).2
    omega
  have hmark : Mark.ofChar? c = none := by
    unfold Mark.ofChar?
    split <;> first | rfl | cases h
  have hquote : c ≠ '"' := by rintro rfl; cases h
  have hminus : c ≠ '-' := by rintro rfl; cases h
  have hdot : c ≠ '.' := by rintro rfl; cases h
  simp [lexeme?, lexeme, hdigit, hmark, hquote, hminus, hdot, h, Except.toOption, Taken.map,
    takeWhile]

/-- A list taken from the front goes no further where the next item does not belong to it. -/
theorem takeWhile_append_of_head {p : Char → Bool} {cs rest : List Char}
    (h : ∀ c ∈ rest.head?, p c = false) : (cs ++ rest).takeWhile p = cs.takeWhile p := by
  induction cs with
  | nil =>
    cases rest with
    | nil => rfl
    | cons c rest => simp [h c rfl]
  | cons c cs ih => rw [List.cons_append, List.takeWhile_cons, List.takeWhile_cons, ih]

theorem dropWhile_append_of_head {p : Char → Bool} {cs rest : List Char}
    (h : ∀ c ∈ rest.head?, p c = false) : (cs ++ rest).dropWhile p = cs.dropWhile p ++ rest := by
  induction cs with
  | nil =>
    cases rest with
    | nil => rfl
    | cons c rest => simp [h c rfl]
  | cons c cs ih =>
    rw [List.cons_append, List.dropWhile_cons, List.dropWhile_cons, ih]
    split <;> rfl

/-- A name is read where it ends. -/
theorem kinds?_name {w : String} (hw : isIdentifier w.toList = true) {rest : List Char}
    (h : Separated rest) : kinds? (w.toList ++ rest) = (kinds? rest).map (.name w :: ·) := by
  cases hc : w.toList with
  | nil =>
    rw [hc] at hw
    cases hw
  | cons c cs =>
    rw [hc, isIdentifier, Bool.and_eq_true] at hw
    have hall : ∀ d ∈ cs, isNameChar d = true := by simpa using hw.2
    have hhead : ∀ d ∈ rest.head?, isNameChar d = false := fun d hd => (h d hd).1
    rw [List.cons_append, kinds?_cons _ (startsGap_of_isNameStart hw.1),
      lexeme?_of_isNameStart _ hw.1, List.takeWhile_append_of_pos hall,
      List.dropWhile_append_of_pos hall]
    cases rest with
    | nil => simp [← hc]
    | cons d rest => simp [hhead d rfl, ← hc]

/-! ## 5. Numbers -/

/-- The number of the parts of a literal, if it has no leading zero and is not too great. -/
def numeral? (negative : Bool) (whole : List Char) (fraction : Option (List Char)) :
    Option Token.Kind :=
  if 1 < whole.length && whole.head? == some '0' then none
  else (Numeral.ofParts? ⟨negative, whole, fraction, none⟩).map .number

theorem numberOf_toOption (negative : Bool) (whole : List Char) (fraction : Option (List Char))
    (text : List Char) :
    (numberOf negative whole fraction text).toOption = numeral? negative whole fraction := by
  unfold numberOf numeral?
  split
  · rfl
  · cases Numeral.ofParts? ⟨negative, whole, fraction, none⟩ <;> rfl

theorem toOption_map {ε α β : Type} (r : Except ε α) (f : α → β) :
    (r.map f).toOption = r.toOption.map f := by
  cases r <;> rfl

/-- The digits of a number ahead of its point. -/
def wholeDigits (c : Char) (cs : List Char) : List Char :=
  if c = '-' then cs.takeWhile Char.isDigit else c :: cs.takeWhile Char.isDigit

/-- The digits after the point that follows the digits of a number, if one does, and the text after
    them. A point that another one follows does not belong to the number. -/
def fraction? : List Char → Option (Option (List Char) × List Char)
  | '.' :: after =>
    if after.head? = some '.' then some (none, '.' :: after)
    else if (after.takeWhile Char.isDigit).isEmpty then none
    else some (some (after.takeWhile Char.isDigit), after.dropWhile Char.isDigit)
  | cs => some (none, cs)

theorem fraction?_of_head_ne {cs : List Char} (h : cs.head? ≠ some '.') :
    fraction? cs = some (none, cs) := by
  unfold fraction?
  split
  · exact absurd rfl h
  · rfl

theorem fraction?_point (after : List Char) :
    fraction? ('.' :: after) =
      if after.head? = some '.' then some (none, '.' :: after)
      else if (after.takeWhile Char.isDigit).isEmpty then none
      else some (some (after.takeWhile Char.isDigit), after.dropWhile Char.isDigit) := rfl

theorem number_toOption (c : Char) (cs : List Char) :
    (number c cs).toOption.map (fun t => (t.value, t.rest)) =
      if (wholeDigits c cs).isEmpty then none
      else (fraction? (cs.dropWhile Char.isDigit)).bind fun f =>
        (numeral? (c == '-') (wholeDigits c cs) f.1).map (·, f.2) := by
  have hwhole : (if c = '-' then (takeWhile Char.isDigit cs).text
      else c :: (takeWhile Char.isDigit cs).text) = wholeDigits c cs := rfl
  unfold number
  simp only [hwhole]
  split
  · rfl
  split
  · rename_i after hd
    have hrest : cs.dropWhile Char.isDigit = '.' :: after := hd
    rw [hrest, fraction?_point]
    by_cases hdots : after.head? = some '.'
    · rw [if_pos hdots, if_pos hdots, toOption_map, numberOf_toOption, Option.map_map, ← hrest]
      rfl
    rw [if_neg hdots, if_neg hdots]
    by_cases hempty : (after.takeWhile Char.isDigit).isEmpty = true
    · have hempty' : (takeWhile Char.isDigit after).text.isEmpty = true := hempty
      rw [if_pos hempty, if_pos hempty']
      rfl
    · have hempty' : ¬(takeWhile Char.isDigit after).text.isEmpty = true := hempty
      rw [if_neg hempty, if_neg hempty', toOption_map, numberOf_toOption, Option.map_map]
      rfl
  · rename_i hd
    have hhead : (cs.dropWhile Char.isDigit).head? ≠ some '.' := by
      intro h
      obtain ⟨after, hafter⟩ := List.head?_eq_some_iff.mp h
      exact hd after hafter
    rw [fraction?_of_head_ne hhead, toOption_map, numberOf_toOption, Option.map_map]
    rfl

theorem lexeme?_number {c : Char} (cs : List Char) (h : c = '-' ∨ c.isDigit = true) :
    lexeme? c cs = (number c cs).toOption.map fun t => (t.value, t.rest) := by
  have hquote : c ≠ '"' := by rintro rfl; simp at h
  have hnumber : (c = '-' || c.isDigit) = true := by simpa using h
  unfold lexeme? lexeme
  rw [if_neg hquote, if_pos hnumber]

/-! ## 6. Cutting a text -/

/-- A token, with more text after it. -/
def splice (rest : List Char) (t : Token.Kind × List Char) : Token.Kind × List Char :=
  (t.1, t.2 ++ rest)

theorem isDigit_of_separated {rest : List Char} (h : Separated rest) :
    ∀ d ∈ rest.head?, d.isDigit = false := by
  intro d hd
  have hname := (h d hd).1
  cases hdigit : d.isDigit with
  | false => rfl
  | true =>
    rw [isNameChar_of_isDigit hdigit] at hname
    cases hname

theorem fraction?_append {cs rest : List Char} (h : Separated rest) :
    fraction? (cs ++ rest) = (fraction? cs).map fun f => (f.1, f.2 ++ rest) := by
  have hdot : rest.head? ≠ some '.' := fun hd => (h '.' hd).2 rfl
  have hdigit := isDigit_of_separated h
  cases cs with
  | nil => rw [List.nil_append, fraction?_of_head_ne hdot, fraction?_of_head_ne (by simp)]; rfl
  | cons c after =>
    by_cases hc : c = '.'
    · subst hc
      have hhead : ((after ++ rest).head? = some '.') = (after.head? = some '.') := by
        cases after <;> simp [hdot]
      simp only [List.cons_append, fraction?_point, takeWhile_append_of_head hdigit,
        dropWhile_append_of_head hdigit, hhead]
      split
      · rfl
      split <;> rfl
    · rw [fraction?_of_head_ne (by simp [hc]), fraction?_of_head_ne (by simp [hc])]
      rfl

theorem number_append {cs rest : List Char} (c : Char) (h : Separated rest) :
    (number c (cs ++ rest)).toOption.map (fun t => (t.value, t.rest)) =
      ((number c cs).toOption.map fun t => (t.value, t.rest)).map (splice rest) := by
  have hdigit := isDigit_of_separated h
  have hwhole : wholeDigits c (cs ++ rest) = wholeDigits c cs := by
    rw [wholeDigits, wholeDigits, takeWhile_append_of_head hdigit]
  rw [number_toOption, number_toOption, hwhole, dropWhile_append_of_head hdigit,
    fraction?_append h]
  split
  · rfl
  cases fraction? (cs.dropWhile Char.isDigit) with
  | none => rfl
  | some f =>
    simp only [Option.map_some, Option.bind_some, Option.map_map]
    rfl

theorem lexeme?_dot (cs : List Char) :
    lexeme? '.' cs = if cs.take 2 = ['.', '.'] then some (.spread, cs.drop 2) else none := by
  unfold lexeme? lexeme
  rw [if_neg (by decide), if_neg (by decide), if_pos rfl]
  split
  · rfl
  · rename_i hcs
    have htake : cs.take 2 ≠ ['.', '.'] := by
      intro h
      match cs, h with
      | _ :: _ :: rest, rfl => exact hcs rest rfl
    rw [if_neg htake]
    rfl

/-- A spread is not made of points on both sides of a cut. -/
theorem lexeme?_dot_append (cs : List Char) {rest : List Char} (h : Separated rest) :
    lexeme? '.' (cs ++ rest) = (lexeme? '.' cs).map (splice rest) := by
  have hhead : ∀ d ∈ rest.head?, d ≠ '.' := fun d hd => (h d hd).2
  rw [lexeme?_dot, lexeme?_dot]
  match cs with
  | [] => cases rest with
    | nil => rfl
    | cons d rest => simp [hhead d rfl]
  | [c] => cases rest with
    | nil => simp
    | cons d rest => simp [hhead d rfl]
  | c :: d :: cs =>
    rw [List.cons_append, List.cons_append]
    simp only [List.take_succ_cons, List.take_zero, List.drop_succ_cons, List.drop_zero]
    split <;> rfl

/-- A token that is no string is the same with more text after it, where no token goes on. -/
theorem lexeme?_append {c : Char} {cs rest : List Char} (hc : c ≠ '"') (h : Separated rest) :
    lexeme? c (cs ++ rest) = (lexeme? c cs).map (splice rest) := by
  by_cases hnumber : c = '-' ∨ c.isDigit = true
  · rw [lexeme?_number _ hnumber, lexeme?_number _ hnumber, number_append c h]
  by_cases hname : isNameStart c = true
  · have hhead : ∀ d ∈ rest.head?, isNameChar d = false := fun d hd => (h d hd).1
    rw [lexeme?_of_isNameStart _ hname, lexeme?_of_isNameStart _ hname,
      takeWhile_append_of_head hhead, dropWhile_append_of_head hhead]
    rfl
  by_cases hdot : c = '.'
  · exact hdot ▸ lexeme?_dot_append cs h
  have hno : (c = '-' || c.isDigit) = false := by simpa using hnumber
  unfold lexeme? lexeme
  simp only [hc, hno, hname, hdot, Bool.false_eq_true, ↓reduceIte]
  cases Mark.ofChar? c <;> rfl

/-- Whether a character stands neither in a gap nor at the start of a string. -/
def isTight (c : Char) : Bool := !startsGap c && c != '"'

theorem some_nil_andThen (ks : Option (List Token.Kind)) : andThen (some []) ks = ks := by
  cases ks <;> rfl

theorem andThen_map_cons (k : Token.Kind) (ks ls : Option (List Token.Kind)) :
    andThen (ks.map (k :: ·)) ls = (andThen ks ls).map (k :: ·) := by
  cases ks <;> cases ls <;> rfl

theorem lexeme?_rest_suffix {c : Char} {cs : List Char} {t : Token.Kind × List Char}
    (h : lexeme? c cs = some t) : t.2 <:+ cs := by
  rw [lexeme?, Option.map_eq_some_iff] at h
  obtain ⟨u, -, rfl⟩ := h
  exact ⟨u.text, u.whole⟩

/-- A text without gaps and strings may be cut off where no token goes on. -/
theorem kinds?_append : ∀ {cs rest : List Char}, (∀ c ∈ cs, isTight c = true) → Separated rest →
    kinds? (cs ++ rest) = andThen (kinds? cs) (kinds? rest)
  | [], rest, _, _ => by
      have hnil : kinds? [] = some [] := kinds?_of_gap rfl
      rw [hnil, List.nil_append]
      exact (some_nil_andThen (kinds? rest)).symm
  | c :: cs, rest, hcs, h => by
      have hc := hcs c List.mem_cons_self
      rw [isTight, Bool.and_eq_true, Bool.not_eq_true', bne_iff_ne] at hc
      rw [List.cons_append, kinds?_cons _ hc.1, kinds?_cons _ hc.1, lexeme?_append hc.2 h]
      cases ht : lexeme? c cs with
      | none => rfl
      | some t =>
        have hsuffix := lexeme?_rest_suffix ht
        have hshort : t.2.length < (c :: cs).length := Nat.lt_succ_of_le hsuffix.length_le
        have htight : ∀ d ∈ t.2, isTight d = true :=
          fun d hd => hcs d (List.mem_cons_of_mem c (hsuffix.mem hd))
        have ih := kinds?_append htight h
        rw [Option.map_some, Option.bind_some, Option.bind_some, splice, ih, andThen_map_cons]
  termination_by cs => cs.length
  decreasing_by exact hshort

end FieldSelection.Grammar
