import FieldSelection.Proofs.Grammar.Scanning
import FieldSelection.Proofs.Outcome

/-!
# Strings, item by item

Between its quotes a string is a row of items (`StringItem`): characters that stand for themselves,
simple escapes, four hexadecimal digits, and twice four of them for a character past U+FFFF.

* A string is read where such a row goes up to a closing quote, and is what the items stand for
  (`stringAt_eq_ok_iff`); what writing makes of a string is such a row (`denotes_encodeChars`), so
  a written string says itself (`kinds?_quoted`).
* Otherwise the first flaw of the row decides (`Flaw`, `stringAt_eq_error_iff`).
-/

namespace FieldSelection.Grammar

open Text (bytes)

/-! ## 1. Items -/

/-- A hexadecimal digit of either case, and its value. -/
def HexDigit (c : Char) (v : Nat) : Prop :=
  "0123456789abcdef".toList[v]? = some c ∨ "0123456789ABCDEF".toList[v]? = some c

/-- Four hexadecimal digits and their value. -/
inductive HexUnit : List Char → Nat → Prop where
  | digits {a b c d : Char} {va vb vc vd : Nat} (ha : HexDigit a va) (hb : HexDigit b vb)
      (hc : HexDigit c vc) (hd : HexDigit d vd) :
      HexUnit [a, b, c, d] (va * 0x1000 + vb * 0x100 + vc * 0x10 + vd)

/-- The characters of an item, and the character that it stands for. -/
inductive StringItem : List Char → Char → Prop where
  | raw {c : Char} (quote : c ≠ '"') (escape : c ≠ '\\') (line : c ≠ '\n') : StringItem [c] c
  | quote : StringItem ['\\', '"'] '"'
  | backslash : StringItem ['\\', '\\'] '\\'
  | slash : StringItem ['\\', '/'] '/'
  | backspace : StringItem ['\\', 'b'] '\x08'
  | formFeed : StringItem ['\\', 'f'] '\x0c'
  | lineFeed : StringItem ['\\', 'n'] '\n'
  | carriageReturn : StringItem ['\\', 'r'] '\r'
  | tab : StringItem ['\\', 't'] '\t'
  | unit {ds : List Char} {n : Nat} {c : Char} (digits : HexUnit ds n)
      (whole : ¬(0xD800 ≤ n ∧ n ≤ 0xDFFF)) (value : c.toNat = n) : StringItem ('\\' :: 'u' :: ds) c
  | pair {ds es : List Char} {high low : Nat} {c : Char} (digits : HexUnit ds high)
      (digits' : HexUnit es low) (first : 0xD800 ≤ high ∧ high ≤ 0xDBFF)
      (second : 0xDC00 ≤ low ∧ low ≤ 0xDFFF)
      (value : c.toNat = 0x10000 + (high - 0xD800) * 0x400 + (low - 0xDC00)) :
      StringItem ('\\' :: 'u' :: (ds ++ '\\' :: 'u' :: es)) c

/-- A row of items, and the characters that they stand for. -/
inductive Denotes : List Char → List Char → Prop where
  | nil : Denotes [] []
  | item {item body value : List Char} {c : Char} (head : StringItem item c)
      (rest : Denotes body value) : Denotes (item ++ body) (c :: value)

/-- The part of an escape that its error shows, the backslash apart. -/
def shownEscape (e : Char) (more : List Char) : List Char :=
  if e = 'u' then 'u' :: more.take 4 else [e]

/-- What goes on with neither an item nor the closing quote, and the failure of that. `start` is
    how far it is from the opening quote. -/
inductive Flaw (start : Nat) : List Char → Failure → Prop where
  | ended : Flaw start [] ⟨.unterminatedString, 0⟩
  | line (more : List Char) : Flaw start ('\n' :: more) ⟨.unterminatedString, 0⟩
  | backslash : Flaw start ['\\'] ⟨.unterminatedString, 0⟩
  | escape {e : Char} {more : List Char}
      (broken : ∀ item c rest, StringItem item c → item ++ rest ≠ '\\' :: e :: more) :
      Flaw start ('\\' :: e :: more)
        ⟨.invalidEscape (String.ofList ('\\' :: shownEscape e more)), start⟩

variable {c : Char} {n start : Nat} {item body value more rest : List Char} {f : Failure}

/-! ## 2. Hexadecimal digits -/

theorem toNat_ofNat_of_isValidChar (h : n.isValidChar) : (Char.ofNat n).toNat = n := by
  rw [Char.ofNat, dif_pos h]
  rfl

theorem HexDigit.lt {v : Nat} (h : HexDigit c v) : v < 16 := by
  rcases h with h | h <;> exact (List.getElem?_eq_some_iff.mp h).1

theorem toNat_lt_of_hexDigit? {v : Nat} (h : Text.hexDigit? c = some v) : c.toNat < 0x67 := by
  unfold Text.hexDigit? at h
  split at h
  · rename_i hc
    have hle : c.toNat ≤ 0x39 := hc.2
    omega
  split at h
  · rename_i hc
    have hle : c.toNat ≤ 0x66 := hc.2
    omega
  split at h
  · rename_i hc
    have hle : c.toNat ≤ 0x46 := hc.2
    omega
  · cases h

theorem hexDigit?_eq_some_iff {v : Nat} : Text.hexDigit? c = some v ↔ HexDigit c v := by
  constructor
  · intro h
    have hall : ∀ n < 0x67, ∀ v ∈ Text.hexDigit? (Char.ofNat n), HexDigit (Char.ofNat n) v := by
      unfold HexDigit
      decide
    have hc := hall c.toNat (toNat_lt_of_hexDigit? h)
    rw [Char.ofNat_toNat] at hc
    exact hc v h
  · intro h
    have hv := h.lt
    rcases h with h | h
    · have hall : ∀ v < 16, "0123456789abcdef".toList[v]?.bind Text.hexDigit? = some v := by
        decide
      rw [← hall v hv, h]
      rfl
    · have hall : ∀ v < 16, "0123456789ABCDEF".toList[v]?.bind Text.hexDigit? = some v := by
        decide
      rw [← hall v hv, h]
      rfl

theorem hexUnit?_eq_some_iff {a b c d : Char} :
    Text.hexUnit? a b c d = some n ↔ HexUnit [a, b, c, d] n := by
  simp only [Text.hexUnit?, Option.bind_eq_bind, Option.bind_eq_some_iff, Option.pure_def,
    Option.some.injEq, hexDigit?_eq_some_iff]
  constructor
  · rintro ⟨va, ha, vb, hb, vc, hc, vd, hd, rfl⟩
    have hvalue : ((va * 16 + vb) * 16 + vc) * 16 + vd =
        va * 0x1000 + vb * 0x100 + vc * 0x10 + vd := by omega
    exact hvalue ▸ .digits ha hb hc hd
  · rintro ⟨ha, hb, hc, hd⟩
    exact ⟨_, ha, _, hb, _, hc, _, hd, by omega⟩

theorem HexUnit.le {ds : List Char} (h : HexUnit ds n) : n ≤ 0xFFFF := by
  obtain ⟨ha, hb, hc, hd⟩ := h
  have := ha.lt
  have := hb.lt
  have := hc.lt
  have := hd.lt
  omega

theorem HexDigit.utf8Size {v : Nat} (h : HexDigit c v) : c.utf8Size = 1 := by
  have hlt := toNat_lt_of_hexDigit? (hexDigit?_eq_some_iff.mpr h)
  have hle : c.val ≤ 127 := Nat.le_trans (Nat.le_of_lt hlt) (by decide)
  simp [Char.utf8Size, hle]

theorem HexUnit.length {ds : List Char} (h : HexUnit ds n) : ds.length = 4 := by
  cases h
  rfl

/-- A digit takes one byte. -/
theorem HexUnit.bytes_escape {ds : List Char} (h : HexUnit ds n) :
    bytes ('\\' :: 'u' :: ds) = 6 := by
  obtain ⟨ha, hb, hc, hd⟩ := h
  simp [ha.utf8Size, hb.utf8Size, hc.utf8Size, hd.utf8Size]
  rfl

/-! ## 3. Escapes -/

theorem isHighSurrogate_iff : Text.isHighSurrogate n = true ↔ 0xD800 ≤ n ∧ n ≤ 0xDBFF := by
  simp [Text.isHighSurrogate]

theorem isLowSurrogate_iff : Text.isLowSurrogate n = true ↔ 0xDC00 ≤ n ∧ n ≤ 0xDFFF := by
  simp [Text.isLowSurrogate]

theorem toNat_pairChar {high low : Nat} (first : 0xD800 ≤ high ∧ high ≤ 0xDBFF)
    (second : 0xDC00 ≤ low ∧ low ≤ 0xDFFF) :
    (Text.pairChar high low).toNat = 0x10000 + (high - 0xD800) * 0x400 + (low - 0xDC00) :=
  toNat_ofNat_of_isValidChar (Or.inr ⟨by omega, by omega⟩)

theorem eq_of_toNat_eq {d : Char} (h : c.toNat = d.toNat) : c = d := by
  rw [← Char.ofNat_toNat c, h, Char.ofNat_toNat]

/-- What a hexadecimal escape takes is an item. -/
theorem item_of_hexEscape {cs : List Char} {t : Taken Char cs} (h : Text.hexEscape cs = some t) :
    StringItem ('\\' :: 'u' :: t.text) t.value := by
  unfold Text.hexEscape at h
  split at h
  · rename_i a b c d rest
    split at h
    · cases h
    rename_i high hhigh
    have hdigits := hexUnit?_eq_some_iff.mp hhigh
    split at h
    · rename_i hfirst
      split at h
      · rename_i a' b' c' d' rest
        split at h
        · rename_i low hlow
          split at h
          · rename_i hsecond
            obtain rfl := Option.some.inj h
            have hfirst := isHighSurrogate_iff.mp hfirst
            have hsecond := isLowSurrogate_iff.mp hsecond
            have hdigits' := hexUnit?_eq_some_iff.mp hlow
            dsimp only
            exact .pair hdigits hdigits' hfirst hsecond (toNat_pairChar hfirst hsecond)
          · cases h
        · cases h
      · cases h
    · rename_i hfirst
      split at h
      · cases h
      · rename_i hsecond
        cases h
        have hle := hdigits.le
        rw [isHighSurrogate_iff] at hfirst
        rw [isLowSurrogate_iff] at hsecond
        have hwhole : ¬(0xD800 ≤ high ∧ high ≤ 0xDFFF) := by omega
        have hvalid : high.isValidChar := by
          unfold Nat.isValidChar
          omega
        exact .unit hdigits hwhole (toNat_ofNat_of_isValidChar hvalid)
  · cases h

theorem item_of_simpleEscape {e : Char} (h : Text.simpleEscape e = some c) :
    StringItem ['\\', e] c := by
  unfold Text.simpleEscape at h
  split at h <;> cases h
  · exact .quote
  · exact .backslash
  · exact .slash
  · exact .backspace
  · exact .formFeed
  · exact .lineFeed
  · exact .carriageReturn
  · exact .tab

/-- What an escape takes is an item. -/
theorem item_of_escape {cs : List Char} {t : Taken Char cs} (h : Text.escape cs = .ok t) :
    StringItem ('\\' :: t.text) t.value := by
  unfold Text.escape at h
  split at h
  · cases h
  split at h
  · rename_i hu
    split at h
    · rename_i u hhex
      cases h
      exact hu ▸ item_of_hexEscape hhex
    · cases h
  · split at h
    · rename_i hsimple
      cases h
      exact item_of_simpleEscape hsimple
    · cases h

/-- An item after a backslash is taken as an escape. -/
theorem escape_of_item {text : List Char} (h : StringItem ('\\' :: text) c) (more : List Char) :
    ∃ t, Text.escape (text ++ more) = .ok t ∧ t.value = c ∧ t.rest = more := by
  generalize hitem : '\\' :: text = item at h
  cases h with
  | raw _ hescape =>
    cases hitem
    exact absurd rfl hescape
  | quote | backslash | slash | backspace | formFeed | lineFeed | carriageReturn | tab =>
    cases hitem
    exact ⟨_, rfl, rfl, rfl⟩
  | unit digits whole value =>
    cases hitem
    obtain ⟨ha, hb, hc, hd⟩ := digits
    have hunit := hexUnit?_eq_some_iff.mpr (.digits ha hb hc hd)
    rw [← value] at hunit whole
    have hfirst := mt isHighSurrogate_iff.mp fun h => whole ⟨h.1, by omega⟩
    have hsecond := mt isLowSurrogate_iff.mp fun h => whole ⟨by omega, h.2⟩
    simp [Text.escape, Text.hexEscape, hunit, hfirst, hsecond, Char.ofNat_toNat]
  | pair digits digits' first second value =>
    cases hitem
    obtain ⟨ha, hb, hc, hd⟩ := digits
    obtain ⟨ha', hb', hc', hd'⟩ := digits'
    have hunit := hexUnit?_eq_some_iff.mpr (.digits ha hb hc hd)
    have hunit' := hexUnit?_eq_some_iff.mpr (.digits ha' hb' hc' hd')
    have hfirst := isHighSurrogate_iff.mpr first
    have hsecond := isLowSurrogate_iff.mpr second
    have hpair := eq_of_toNat_eq ((toNat_pairChar first second).trans value.symm)
    simp [Text.escape, Text.hexEscape, hunit, hunit', hfirst, hsecond, hpair]

/-- What is no escape is shown up to its four digits. -/
theorem text_of_escape_error {e : Char} {text : List Char}
    (h : Text.escape (e :: more) = .error text) : text = shownEscape e more := by
  rw [Text.escape] at h
  rw [shownEscape]
  split at h
  · rename_i hu
    split at h <;> cases h
    rw [if_pos hu]
  · rename_i hu
    split at h <;> cases h
    rw [if_neg hu]

/-- An item is a character or an escape. -/
theorem StringItem.raw_or_escape (h : StringItem item c) :
    (item = [c] ∧ c ≠ '"' ∧ c ≠ '\\' ∧ c ≠ '\n') ∨ ∃ e text, item = '\\' :: e :: text := by
  cases h with
  | raw quote escape line => exact Or.inl ⟨rfl, quote, escape, line⟩
  | _ => exact Or.inr ⟨_, _, rfl⟩

/-- Where an escape fails, there is no item. -/
theorem not_item_of_escape_error {e : Char} {text : List Char}
    (h : Text.escape (e :: more) = .error text) (hitem : StringItem item c) (rest : List Char) :
    item ++ rest ≠ '\\' :: e :: more := by
  intro heq
  rcases hitem.raw_or_escape with ⟨rfl, -, hescape, -⟩ | ⟨e', text', rfl⟩
  · cases heq
    exact hescape rfl
  · obtain ⟨t, ht, -⟩ := escape_of_item hitem rest
    rw [← show e' :: text' ++ rest = e :: more from (List.cons.inj heq).2] at h
    cases h.symm.trans ht

/-! ## 4. Rows of items -/

/-- What a string is after its opening quote, and the text after it. -/
def stringAt (start : Nat) (cs : List Char) : Except Failure (List Char × List Char) :=
  (stringRest start cs).map fun t => (t.value, t.rest)

/-- The string that a string goes on with, with what was ahead of it. -/
def prepend (value : List Char) (r : List Char × List Char) : List Char × List Char :=
  (value ++ r.1, r.2)

theorem map_prepend_nil (r : Except Failure (List Char × List Char)) :
    r.map (prepend []) = r := by
  cases r <;> rfl

theorem map_prepend_prepend (a b : List Char) (r : Except Failure (List Char × List Char)) :
    (r.map (prepend b)).map (prepend a) = r.map (prepend (a ++ b)) := by
  cases r <;> simp [Except.map, prepend]

theorem stringAt_quote (start : Nat) (rest : List Char) :
    stringAt start ('"' :: rest) = .ok ([], rest) := by
  rw [stringAt, stringRest.eq_def]
  rfl

theorem stringAt_raw (hquote : c ≠ '"') (hescape : c ≠ '\\') (hline : c ≠ '\n') :
    stringAt start (c :: more) = (stringAt (start + bytes [c]) more).map (prepend [c]) := by
  rw [stringAt, stringAt, stringRest.eq_def]
  simp only [hquote, hescape, hline, ↓reduceIte]
  cases stringRest (start + bytes [c]) more <;> rfl

theorem stringAt_escape {e : Char} {t : Taken Char (e :: more)}
    (h : Text.escape (e :: more) = .ok t) :
    stringAt start ('\\' :: e :: more) =
      (stringAt (start + bytes ('\\' :: t.text)) t.rest).map (prepend [t.value]) := by
  rw [stringAt, stringAt, stringRest.eq_def]
  simp only [Char.reduceEq, ↓reduceIte, h]
  cases stringRest (start + bytes ('\\' :: t.text)) t.rest <;> rfl

/-- An item is read, and the string goes on after it. -/
theorem stringAt_item (h : StringItem item c) (start : Nat) (more : List Char) :
    stringAt start (item ++ more) = (stringAt (start + bytes item) more).map (prepend [c]) := by
  rcases h.raw_or_escape with ⟨rfl, hquote, hescape, hline⟩ | ⟨e, text, rfl⟩
  · exact stringAt_raw hquote hescape hline
  · obtain ⟨t, ht, rfl, hrest⟩ := escape_of_item h more
    have htext : t.text = e :: text := List.append_cancel_right (hrest ▸ t.whole)
    have hread : stringAt start ('\\' :: e :: (text ++ more)) = _ := stringAt_escape ht
    rw [htext, hrest] at hread
    exact hread

/-- A flaw ends the reading. -/
theorem stringAt_flaw (h : Flaw start more f) : stringAt start more = .error f := by
  rw [stringAt, stringRest.eq_def]
  cases h with
  | ended | line | backslash => rfl
  | @escape e more broken =>
    cases hescape : Text.escape (e :: more) with
    | ok t => exact absurd (congrArg ('\\' :: ·) t.whole) (broken _ _ _ (item_of_escape hescape))
    | error text =>
      simp only [Char.reduceEq, ↓reduceIte, hescape, text_of_escape_error hescape]
      rfl

/-- A text goes on with the closing quote, with an item or with a flaw. -/
theorem quote_or_item_or_flaw (start : Nat) (cs : List Char) :
    (∃ rest, cs = '"' :: rest) ∨ (∃ item c rest, StringItem item c ∧ cs = item ++ rest) ∨
      ∃ f, Flaw start cs f := by
  match cs with
  | [] => exact Or.inr (Or.inr ⟨_, .ended⟩)
  | c :: rest =>
    by_cases hquote : c = '"'
    · exact Or.inl ⟨rest, hquote ▸ rfl⟩
    right
    by_cases hline : c = '\n'
    · subst hline
      exact Or.inr ⟨_, .line rest⟩
    by_cases hescape : c = '\\'
    · subst hescape
      match rest with
      | [] => exact Or.inr ⟨_, .backslash⟩
      | e :: more =>
        cases htaken : Text.escape (e :: more) with
        | ok t =>
          exact Or.inl ⟨_, _, t.rest, item_of_escape htaken, congrArg ('\\' :: ·) t.whole.symm⟩
        | error text =>
          exact Or.inr ⟨_, .escape fun _ _ rest h => not_item_of_escape_error htaken h rest⟩
    · exact Or.inl ⟨[c], c, rest, .raw hquote hescape hline, rfl⟩

theorem StringItem.ne_nil (h : StringItem item c) : item ≠ [] := by
  rcases h.raw_or_escape with ⟨rfl, -⟩ | ⟨e, text, rfl⟩ <;> exact List.cons_ne_nil _ _

/-- A text is a row of items up to the closing quote, or up to a flaw. -/
theorem row_or_flaw (start : Nat) (cs : List Char) :
    (∃ body value rest, cs = body ++ '"' :: rest ∧ Denotes body value) ∨
      ∃ body value after f, cs = body ++ after ∧ Denotes body value ∧
        Flaw (start + bytes body) after f := by
  -- on the number of characters: an item takes several of them
  induction hn : cs.length using Nat.strongRecOn generalizing start cs with
  | ind n ih =>
    rcases quote_or_item_or_flaw start cs with ⟨rest, rfl⟩ | ⟨item, c, more, hitem, rfl⟩ | ⟨f, hf⟩
    · exact Or.inl ⟨[], [], rest, rfl, .nil⟩
    · have hlt : more.length < n := by
        have := List.length_pos_iff.mpr hitem.ne_nil
        rw [List.length_append] at hn
        omega
      rcases ih _ hlt (start + bytes item) more rfl with
        ⟨body, value, rest, rfl, h⟩ | ⟨body, value, after, f, rfl, h, hf⟩
      · exact Or.inl ⟨item ++ body, _, rest, (List.append_assoc ..).symm, .item hitem h⟩
      · refine Or.inr ⟨item ++ body, _, after, f, (List.append_assoc ..).symm, .item hitem h, ?_⟩
        rw [Text.bytes_append, ← Nat.add_assoc]
        exact hf
    · exact Or.inr ⟨[], [], cs, f, rfl, .nil, hf⟩

/-- A row of items is read, and the string goes on after it. -/
theorem stringAt_row (h : Denotes body value) (start : Nat) (more : List Char) :
    stringAt start (body ++ more) = (stringAt (start + bytes body) more).map (prepend value) := by
  induction h generalizing start with
  | nil => exact (map_prepend_nil _).symm
  | @item item body value c head rest ih =>
    rw [List.append_assoc, stringAt_item head, ih, map_prepend_prepend, Text.bytes_append,
      ← Nat.add_assoc]
    rfl

/-- **A string is read where a row of items goes up to a closing quote.** -/
theorem stringAt_eq_ok_iff {cs : List Char} :
    stringAt start cs = .ok (value, rest) ↔
      ∃ body, cs = body ++ '"' :: rest ∧ Denotes body value := by
  constructor
  · intro h
    rcases row_or_flaw start cs with
      ⟨body, value', rest', rfl, hrow⟩ | ⟨body, value', after, f, rfl, hrow, hf⟩
    · rw [stringAt_row hrow, stringAt_quote] at h
      simp only [Except.map, prepend, List.append_nil, Except.ok.injEq, Prod.mk.injEq] at h
      obtain ⟨rfl, rfl⟩ := h
      exact ⟨body, rfl, hrow⟩
    · rw [stringAt_row hrow, stringAt_flaw hf] at h
      cases h
  · rintro ⟨body, rfl, hrow⟩
    rw [stringAt_row hrow, stringAt_quote]
    simp [Except.map, prepend]

/-- **Otherwise the first flaw decides.** -/
theorem stringAt_eq_error_iff {cs : List Char} :
    stringAt start cs = .error f ↔
      ∃ body value after, cs = body ++ after ∧ Denotes body value ∧
        Flaw (start + bytes body) after f := by
  constructor
  · intro h
    rcases row_or_flaw start cs with
      ⟨body, value', rest', rfl, hrow⟩ | ⟨body, value', after, f', rfl, hrow, hf⟩
    · rw [stringAt_row hrow, stringAt_quote] at h
      cases h
    · rw [stringAt_row hrow, stringAt_flaw hf] at h
      cases h
      exact ⟨body, value', after, rfl, hrow, hf⟩
  · rintro ⟨body, value', after, rfl, hrow, hf⟩
    rw [stringAt_row hrow, stringAt_flaw hf]
    rfl

/-! ## 5. String tokens -/

theorem lexeme_map_string (cs : List Char) :
    ((lexeme '"' cs).map fun t => (t.value, t.rest)) =
      (stringAt 1 cs).map fun r => (.string (String.ofList r.1), r.2) := by
  have hquoted : lexeme '"' cs =
    (stringRest 1 cs).map fun s => s.map fun cs => .string (String.ofList cs) := rfl
  rw [hquoted, stringAt]
  cases stringRest 1 cs <;> rfl

theorem lexeme?_quote_iff {cs : List Char} {k : Token.Kind} :
    lexeme? '"' cs = some (k, rest) ↔
      ∃ body value, k = .string (String.ofList value) ∧ cs = body ++ '"' :: rest ∧
        Denotes body value := by
  rw [lexeme?, ← toOption_map, lexeme_map_string]
  constructor
  · intro h
    cases hread : stringAt 1 cs with
    | error f =>
      rw [hread] at h
      cases h
    | ok r =>
      rw [hread] at h
      obtain ⟨rfl, rfl⟩ := Prod.mk.inj (Option.some.inj h)
      obtain ⟨body, hbody, hrow⟩ := stringAt_eq_ok_iff.mp hread
      exact ⟨body, r.1, rfl, hbody, hrow⟩
  · rintro ⟨body, value, rfl, hbody, hrow⟩
    rw [stringAt_eq_ok_iff.mpr ⟨body, hbody, hrow⟩]
    rfl

/-! ## 6. Writing -/

/-- Writing escapes a character, or leaves it as it is. -/
theorem encodeChar_cases (c : Char) : (∃ e, Text.encodeChar c = '\\' :: e) ∨
    (Text.encodeChar c = [c] ∧ c ≠ '"' ∧ c ≠ '\\' ∧ 0x20 ≤ c.toNat) := by
  unfold Text.encodeChar
  by_cases hq : c = '"'
  · exact Or.inl ⟨_, if_pos hq⟩
  by_cases hb : c = '\\'
  · exact Or.inl ⟨_, by rw [if_neg hq, if_pos hb]⟩
  by_cases hlow : c.toNat < 0x20
  · left
    simp only [hq, hb, hlow, ↓reduceIte]
    iterate 5
      split
      · exact ⟨_, rfl⟩
    exact ⟨_, rfl⟩
  · refine Or.inr ⟨?_, hq, hb, by omega⟩
    have hne : ∀ d : Char, d.toNat < 0x20 → c ≠ d := fun d hd e => hlow (e ▸ hd)
    simp only [hq, hb, hlow, hne '\x08' (by decide), hne '\x0c' (by decide),
      hne '\n' (by decide), hne '\r' (by decide), hne '\t' (by decide), ↓reduceIte]

/-- What writing makes of a character is an item that stands for it. -/
theorem item_encodeChar (c : Char) : StringItem (Text.encodeChar c) c := by
  rcases encodeChar_cases c with ⟨e, he⟩ | ⟨hc, hquote, hescape, hlow⟩
  · have hread := Text.escape_encodeChar c e [] he
    cases htaken : Text.escape (e ++ []) with
    | error text =>
      rw [htaken] at hread
      cases hread
    | ok t =>
      rw [htaken] at hread
      obtain ⟨rfl, hrest⟩ := Prod.mk.inj (Option.some.inj hread)
      have htext : t.text = e := List.append_cancel_right (hrest ▸ t.whole)
      have hitem := item_of_escape htaken
      rw [htext] at hitem
      exact he ▸ hitem
  · have hline : c ≠ '\n' := by
      rintro rfl
      simp at hlow
    rw [hc]
    exact .raw hquote hescape hline

theorem denotes_encodeChars (value : List Char) :
    Denotes (value.flatMap Text.encodeChar) value := by
  induction value with
  | nil => exact .nil
  | cons c value ih => exact .item (item_encodeChar c) ih

/-- A string says itself, whatever stands in it. -/
theorem kinds?_quoted (s : String) (cs : List Char) :
    kinds? (Text.quoted s.toList ++ cs) = (kinds? cs).map (.string s :: ·) := by
  have hread : lexeme? '"' (s.toList.flatMap Text.encodeChar ++ '"' :: cs) = some (.string s, cs) :=
    lexeme?_quote_iff.mpr ⟨_, _, by rw [String.ofList_toList], rfl, denotes_encodeChars s.toList⟩
  rw [Text.quoted, List.cons_append, List.cons_append, List.append_assoc, List.singleton_append,
    kinds?_cons _ (by decide), hread]
  rfl

end FieldSelection.Grammar
