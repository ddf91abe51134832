import FieldSelection.Proofs.Grammar.Strings

/-!
# Strings, cut at byte indices

A reader may keep the text of a string whole, count the bytes of the characters that it has read,
and cut what it looks at ahead of them out of the text at these bytes (`cutString`). It then has to
pass over as many characters as it has looked at, and each of its cuts has to fall between two
characters of the text. It does, and so it reads what is read without any cuts (`cutString_eq`).

`lexeme_quote` puts together what a quote starts.
-/

namespace FieldSelection.Grammar

open Text (bytes)

variable {c : Char} {n : Nat} {item more : List Char} {f : Failure}

/-! ## 1. Reading with cuts -/

/-- The characters of a text, each with the byte at which it starts. -/
def placed (index : Nat) : List Char → List (Nat × Char)
  | [] => []
  | c :: cs => (index, c) :: placed (index + c.utf8Size) cs

/-- The value of the four hexadecimal digits ahead. -/
def unit? (cs : List Char) : Option Nat :=
  match cs.take 4 with
  | [a, b, c, d] => Text.hexUnit? a b c d
  | _ => none

/-- The second half of a pair in the escape ahead. -/
def secondHalf? : List Char → Option Nat
  | '\\' :: 'u' :: rest => (unit? rest).filter Text.isLowSurrogate
  | _ => none

/-- The character of the hexadecimal escape at a byte of the text, and how many characters after `u`
    it takes; or the digits that the error shows. `none`: a cut is past the end of the text, or
    inside of a character. -/
def cutHex (input : List Char) (index : Nat) : Option (Except (List Char) (Char × Nat)) :=
  (Text.dropBytes? (index + 2) input).bind fun digits =>
    match unit? digits with
    | none => some (.error (digits.take 4))
    | some unit =>
      if Text.isHighSurrogate unit then
        (Text.dropBytes? (index + 6) input).map fun after =>
          match secondHalf? after with
          | none => .error (digits.take 4)
          | some low => .ok (Text.pairChar unit low, 4 + 6)
      else if unit.isValidChar then some (.ok (Char.ofNat unit, 4))
      else some (.error (digits.take 4))

/-- The string in a text that starts with its opening quote, read from the characters that are left;
    `value` is what has been read. What an escape goes on with and what comes after the string is
    cut out of the text at a byte. `none` as for `cutHex`. -/
def cutString (input value : List Char) (chars : List (Nat × Char)) :
    Option (Except Failure (List Char × List Char)) :=
  match chars with
  | [] => some (.error ⟨.unterminatedString, 0⟩)
  | (index, c) :: chars =>
    if c = '"' then (Text.dropBytes? (index + 1) input).map fun rest => .ok (value, rest)
    else if c = '\\' then
      match chars with
      | [] => some (.error ⟨.unterminatedString, 0⟩)
      | (_, e) :: chars =>
        if e = 'u' then
          match cutHex input index with
          | none => none
          | some (.error digits) =>
            some (.error ⟨.invalidEscape (String.ofList ('\\' :: 'u' :: digits)), index⟩)
          | some (.ok (d, n)) => cutString input (value ++ [d]) (chars.drop n)
        else
          match Text.simpleEscape e with
          | none => some (.error ⟨.invalidEscape (String.ofList ['\\', e]), index⟩)
          | some d => cutString input (value ++ [d]) chars
    else if c = '\n' then some (.error ⟨.unterminatedString, 0⟩)
    else cutString input (value ++ [c]) chars
  termination_by chars.length

/-- The string at the start of a text, read with cuts at bytes, and the text after it. -/
def stringLiteral (input : List Char) : Option (Except Failure (Token.Kind × List Char)) :=
  (cutString input [] ((placed 0 input).drop 1)).map
    (Except.map fun r => (.string (String.ofList r.1), r.2))

/-! ## 2. What is cut out -/

theorem placed_append (index : Nat) (a b : List Char) :
    placed index (a ++ b) = placed index a ++ placed (index + bytes a) b := by
  induction a generalizing index with
  | nil => rfl
  | cons c a ih => rw [List.cons_append, placed, placed, ih, Text.bytes_cons, Nat.add_assoc]; rfl

theorem length_placed (index : Nat) (cs : List Char) : (placed index cs).length = cs.length := by
  induction cs generalizing index with
  | nil => rfl
  | cons c cs ih => rw [placed, List.length_cons, List.length_cons, ih]

/-- As many characters are passed over as were looked at. -/
theorem drop_placed {index k : Nat} {a : List Char} (h : a.length = k) (b : List Char) :
    (placed index (a ++ b)).drop k = placed (index + bytes a) b := by
  rw [placed_append]
  exact List.drop_left' ((length_placed index a).trans h)

theorem unit?_eq_some_iff {cs : List Char} :
    unit? cs = some n ↔ ∃ ds rest, cs = ds ++ rest ∧ HexUnit ds n := by
  constructor
  · intro h
    unfold unit? at h
    split at h
    · rename_i a b c d hds
      refine ⟨[a, b, c, d], cs.drop 4, ?_, hexUnit?_eq_some_iff.mp h⟩
      rw [← hds, List.take_append_drop]
    · cases h
  · rintro ⟨_, rest, rfl, ha, hb, hc, hd⟩
    exact hexUnit?_eq_some_iff.mpr (.digits ha hb hc hd)

theorem secondHalf?_eq_some_iff {cs : List Char} :
    secondHalf? cs = some n ↔ ∃ ds rest, cs = '\\' :: 'u' :: (ds ++ rest) ∧ HexUnit ds n ∧
      0xDC00 ≤ n ∧ n ≤ 0xDFFF := by
  constructor
  · intro h
    unfold secondHalf? at h
    split at h
    · obtain ⟨hunit, hlow⟩ := Option.filter_eq_some_iff.mp h
      obtain ⟨ds, rest, rfl, hds⟩ := unit?_eq_some_iff.mp hunit
      exact ⟨ds, rest, rfl, hds, isLowSurrogate_iff.mp hlow⟩
    · cases h
  · rintro ⟨ds, rest, rfl, hds, hlow⟩
    exact Option.filter_eq_some_iff.mpr
      ⟨unit?_eq_some_iff.mpr ⟨ds, rest, rfl, hds⟩, isLowSurrogate_iff.mpr hlow⟩

/-- A cut after characters that are known to be there. -/
theorem dropBytes?_at (front : List Char) {a : List Char} {k : Nat} (h : bytes a = k)
    (b : List Char) : Text.dropBytes? (bytes front + k) (front ++ (a ++ b)) = some b := by
  rw [← h, ← Text.bytes_append, ← List.append_assoc]
  exact Text.dropBytes?_append (front ++ a) b

theorem isValidChar_toNat (c : Char) : c.toNat.isValidChar := c.valid

/-! ## 3. Hexadecimal escapes -/

theorem cutHex_unit {ds : List Char} (digits : HexUnit ds n)
    (whole : ¬(0xD800 ≤ n ∧ n ≤ 0xDFFF)) (hvalue : c.toNat = n) (front more : List Char) :
    cutHex (front ++ '\\' :: 'u' :: (ds ++ more)) (bytes front) = some (.ok (c, 4)) := by
  have hcut : Text.dropBytes? (bytes front + 2) (front ++ '\\' :: 'u' :: (ds ++ more)) =
    some (ds ++ more) := dropBytes?_at front (a := ['\\', 'u']) rfl _
  have hunit := unit?_eq_some_iff.mpr ⟨ds, more, rfl, digits⟩
  have hfirst : ¬Text.isHighSurrogate n = true := mt isHighSurrogate_iff.mp (by omega)
  have hvalid : n.isValidChar := hvalue ▸ isValidChar_toNat c
  have hchar : Char.ofNat n = c := by rw [← hvalue, Char.ofNat_toNat]
  simp only [cutHex, hcut, Option.bind_some, hunit, hfirst, hvalid, hchar, Bool.false_eq_true,
    ↓reduceIte]

theorem cutHex_pair {ds es : List Char} {high low : Nat} (digits : HexUnit ds high)
    (digits' : HexUnit es low) (first : 0xD800 ≤ high ∧ high ≤ 0xDBFF)
    (second : 0xDC00 ≤ low ∧ low ≤ 0xDFFF)
    (hvalue : c.toNat = 0x10000 + (high - 0xD800) * 0x400 + (low - 0xDC00))
    (front more : List Char) :
    cutHex (front ++ '\\' :: 'u' :: (ds ++ '\\' :: 'u' :: (es ++ more))) (bytes front) =
      some (.ok (c, 10)) := by
  have hcut : Text.dropBytes? (bytes front + 2)
    (front ++ '\\' :: 'u' :: (ds ++ '\\' :: 'u' :: (es ++ more))) =
      some (ds ++ '\\' :: 'u' :: (es ++ more)) := dropBytes?_at front (a := ['\\', 'u']) rfl _
  have hcut' : Text.dropBytes? (bytes front + 6)
    (front ++ '\\' :: 'u' :: (ds ++ '\\' :: 'u' :: (es ++ more))) =
      some ('\\' :: 'u' :: (es ++ more)) := dropBytes?_at front digits.bytes_escape _
  have hunit := unit?_eq_some_iff.mpr ⟨ds, '\\' :: 'u' :: (es ++ more), rfl, digits⟩
  have hhalf := secondHalf?_eq_some_iff.mpr ⟨es, more, rfl, digits', second⟩
  have hfirst := isHighSurrogate_iff.mpr first
  have hchar := eq_of_toNat_eq ((toNat_pairChar first second).trans hvalue.symm)
  simp only [cutHex, hcut, hcut', Option.bind_some, Option.map_some, hunit, hhalf, hfirst, hchar,
    ↓reduceIte]

/-- A hexadecimal escape is cut out of the text as the item that it is. -/
theorem cutHex_item {text : List Char} (h : StringItem ('\\' :: 'u' :: text) c)
    (front more : List Char) :
    cutHex (front ++ '\\' :: 'u' :: (text ++ more)) (bytes front) =
      some (.ok (c, text.length)) := by
  generalize hitem : '\\' :: 'u' :: text = item at h
  cases h with
  | raw => cases hitem
  | quote | backslash | slash | backspace | formFeed | lineFeed | carriageReturn | tab =>
    cases hitem
  | unit digits whole hvalue =>
    cases hitem
    rw [digits.length]
    exact cutHex_unit digits whole hvalue front more
  | pair digits digits' first second hvalue =>
    cases hitem
    rw [List.length_append, List.length_cons, List.length_cons, digits.length, digits'.length,
      List.append_assoc]
    exact cutHex_pair digits digits' first second hvalue front more

/-- Where there is no item, the error shows what is cut out of the text. -/
theorem cutHex_broken
    (broken : ∀ item c rest, StringItem item c → item ++ rest ≠ '\\' :: 'u' :: more)
    (front : List Char) :
    cutHex (front ++ '\\' :: 'u' :: more) (bytes front) = some (.error (more.take 4)) := by
  have hcut : Text.dropBytes? (bytes front + 2) (front ++ '\\' :: 'u' :: more) = some more :=
    dropBytes?_at front (a := ['\\', 'u']) rfl _
  rw [cutHex, hcut, Option.bind_some]
  cases hunit : unit? more with
  | none => rfl
  | some n =>
    obtain ⟨ds, rest, rfl, digits⟩ := unit?_eq_some_iff.mp hunit
    by_cases hfirst : Text.isHighSurrogate n = true
    · have first := isHighSurrogate_iff.mp hfirst
      have hcut' : Text.dropBytes? (bytes front + 6) (front ++ '\\' :: 'u' :: (ds ++ rest)) =
        some rest := dropBytes?_at front digits.bytes_escape _
      cases hhalf : secondHalf? rest with
      | none => simp only [hfirst, hcut', hhalf, Option.map_some, ↓reduceIte]
      | some low =>
        obtain ⟨es, rest, rfl, digits', second⟩ := secondHalf?_eq_some_iff.mp hhalf
        refine absurd ?_ (broken _ _ rest
          (.pair digits digits' first second (toNat_pairChar first second)))
        simp only [List.cons_append, List.append_assoc]
    · by_cases hvalid : n.isValidChar
      · have hvalue := toNat_ofNat_of_isValidChar hvalid
        have whole : ¬(0xD800 ≤ n ∧ n ≤ 0xDFFF) := by
          unfold Nat.isValidChar at hvalid
          omega
        exact absurd rfl (broken _ _ rest (.unit digits whole hvalue))
      · simp only [hfirst, hvalid, ↓reduceIte]
        rfl

/-! ## 4. Strings -/

theorem cutString_quote (front value rest : List Char) :
    cutString (front ++ '"' :: rest) value (placed (bytes front) ('"' :: rest)) =
      some (.ok (value, rest)) := by
  have hcut : Text.dropBytes? (bytes front + 1) (front ++ '"' :: rest) = some rest :=
    dropBytes?_at front (a := ['"']) rfl rest
  rw [cutString.eq_def]
  simp only [placed, ↓reduceIte, hcut, Option.map_some]

/-- An escape is a simple one or a hexadecimal one. -/
theorem StringItem.simple_or_hex {e : Char} {text : List Char}
    (h : StringItem ('\\' :: e :: text) c) :
    e = 'u' ∨ e ≠ 'u' ∧ Text.simpleEscape e = some c ∧ text = [] := by
  generalize hitem : '\\' :: e :: text = item at h
  cases h with
  | raw => cases hitem
  | quote | backslash | slash | backspace | formFeed | lineFeed | carriageReturn | tab =>
    cases hitem
    exact Or.inr ⟨by decide, rfl, rfl⟩
  | unit | pair =>
    cases hitem
    exact Or.inl rfl

/-- After an item the reader stands behind it. -/
theorem cutString_item (h : StringItem item c) (front value more : List Char) :
    cutString (front ++ (item ++ more)) value (placed (bytes front) (item ++ more)) =
      cutString (front ++ (item ++ more)) (value ++ [c])
        (placed (bytes front + bytes item) more) := by
  rw [cutString.eq_def]
  rcases h.raw_or_escape with ⟨rfl, hquote, hescape, hline⟩ | ⟨e, text, rfl⟩
  · simp only [List.cons_append, List.nil_append, placed, hquote, hescape, hline, ↓reduceIte]
    rfl
  rcases h.simple_or_hex with rfl | ⟨hu, hsimple, rfl⟩
  · simp only [List.cons_append, placed, Char.reduceEq, ↓reduceIte, cutHex_item h,
      drop_placed rfl, Text.bytes_cons, Nat.add_assoc]
  · simp only [List.cons_append, List.nil_append, placed, Char.reduceEq, ↓reduceIte, hu, hsimple,
      Text.bytes_cons, Text.bytes_nil, Nat.add_zero, Nat.add_assoc]

theorem cutString_flaw (front value : List Char) (h : Flaw (bytes front) more f) :
    cutString (front ++ more) value (placed (bytes front) more) = some (.error f) := by
  rw [cutString.eq_def]
  cases h with
  | ended | line | backslash => rfl
  | @escape e more broken =>
    by_cases hu : e = 'u'
    · subst hu
      simp only [placed, Char.reduceEq, ↓reduceIte, cutHex_broken broken, shownEscape]
    · have hsimple : Text.simpleEscape e = none := by
        cases hsimple : Text.simpleEscape e with
        | none => rfl
        | some d => exact absurd rfl (broken _ _ more (item_of_simpleEscape hsimple))
      simp only [placed, Char.reduceEq, ↓reduceIte, hu, hsimple, shownEscape]

/-- **No cut is past the end of the text or inside of a character**, and what is read is the
    same. -/
theorem cutString_eq (front value cs : List Char) :
    cutString (front ++ cs) value (placed (bytes front) cs) =
      some ((stringAt (bytes front) cs).map (prepend value)) := by
  -- on the number of characters: an item takes several of them
  induction hn : cs.length using Nat.strongRecOn generalizing front value cs with
  | ind n ih =>
    rcases quote_or_item_or_flaw (bytes front) cs with
      ⟨rest, rfl⟩ | ⟨item, c, more, hitem, rfl⟩ | ⟨f, hf⟩
    · rw [cutString_quote, stringAt_quote, Except.map, prepend, List.append_nil]
    · have hlt : more.length < n := by
        have := List.length_pos_iff.mpr hitem.ne_nil
        rw [List.length_append] at hn
        omega
      have hread := ih _ hlt (front ++ item) (value ++ [c]) more rfl
      rw [Text.bytes_append, List.append_assoc] at hread
      rw [cutString_item hitem, hread, stringAt_item hitem, map_prepend_prepend]
    · rw [cutString_flaw front value hf, stringAt_flaw hf]
      rfl

/-! ## 5. Literals -/

theorem stringLiteral_eq (cs : List Char) :
    stringLiteral ('"' :: cs) = some ((lexeme '"' cs).map fun t => (t.value, t.rest)) := by
  have hread : cutString ('"' :: cs) [] ((placed 0 ('"' :: cs)).drop 1) = _ :=
    cutString_eq ['"'] [] cs
  rw [stringLiteral, hread, map_prepend_nil, lexeme_map_string]
  rfl

/-- **What is read after a quote**: a row of items up to the closing quote, or else the first flaw
    of the row; what writing makes of a string is that string again; and cutting at bytes does the
    same, with no cut that is out of the text or inside of a character. -/
theorem lexeme_quote (cs : List Char) :
    (∀ k rest, lexeme? '"' cs = some (k, rest) ↔
      ∃ body value, k = .string (String.ofList value) ∧ cs = body ++ '"' :: rest ∧
        Denotes body value) ∧
    (∀ f, lexeme '"' cs = .error f ↔
      ∃ body value after, cs = body ++ after ∧ Denotes body value ∧
        Flaw (1 + bytes body) after f) ∧
    (∀ (s : String) rest, '"' :: cs = Text.quoted s.toList ++ rest →
      lexeme? '"' cs = some (.string s, rest)) ∧
    stringLiteral ('"' :: cs) = some ((lexeme '"' cs).map fun t => (t.value, t.rest)) := by
  refine ⟨fun k rest => lexeme?_quote_iff, fun f => ?_, fun s rest h => ?_, stringLiteral_eq cs⟩
  · have hsame : ((lexeme '"' cs).map fun t => (t.value, t.rest)) = .error f ↔
        stringAt 1 cs = .error f := by
      rw [lexeme_map_string, map_eq_error_iff]
    rw [← stringAt_eq_error_iff, ← hsame, map_eq_error_iff]
  · rw [Text.quoted, List.cons_append, List.cons_append, List.append_assoc] at h
    refine lexeme?_quote_iff.mpr ⟨_, s.toList, ?_, (List.cons.inj h).2, denotes_encodeChars _⟩
    rw [String.ofList_toList]

end FieldSelection.Grammar
