import FieldSelection.Text.Taken

/-!
# Quoted strings

How a string stands between double quotes, in a selection text and in a JSON document alike:

* writing (`quoted`) escapes the quote, the backslash and the characters below U+0020, and nothing
  else;
* reading knows the eight simple escapes and four hexadecimal digits; a character past U+FFFF is
  two of the latter, a high surrogate and a low one.

The main statement is `escape_encodeChar`: what writing makes of an escaped character is read back
as that character.
-/

namespace FieldSelection.Text

/-! ## 1. Writing -/

/-- A hexadecimal digit, lower case. -/
def hexChar (n : Nat) : Char :=
  if n < 10 then Char.ofNat (48 + n) else Char.ofNat (87 + n)

/-- A character as it stands between quotes. -/
def encodeChar (c : Char) : List Char :=
  if c = '"' then ['\\', '"']
  else if c = '\\' then ['\\', '\\']
  else if c = '\x08' then ['\\', 'b']
  else if c = '\x0c' then ['\\', 'f']
  else if c = '\n' then ['\\', 'n']
  else if c = '\r' then ['\\', 'r']
  else if c = '\t' then ['\\', 't']
  else if c.toNat < 0x20 then
    ['\\', 'u', '0', '0', hexChar (c.toNat / 16), hexChar (c.toNat % 16)]
  else [c]

/-- A string between double quotes. -/
def quoted (cs : List Char) : List Char :=
  '"' :: cs.flatMap encodeChar ++ ['"']

/-! ## 2. Reading an escape -/

/-- The character that a simple escape stands for. -/
def simpleEscape : Char → Option Char
  | '"' => some '"'
  | '\\' => some '\\'
  | '/' => some '/'
  | 'b' => some '\x08'
  | 'f' => some '\x0c'
  | 'n' => some '\n'
  | 'r' => some '\r'
  | 't' => some '\t'
  | _ => none

/-- The value of a hexadecimal digit of either case. -/
def hexDigit? (c : Char) : Option Nat :=
  if '0' ≤ c ∧ c ≤ '9' then some (c.toNat - 48)
  else if 'a' ≤ c ∧ c ≤ 'f' then some (c.toNat - 87)
  else if 'A' ≤ c ∧ c ≤ 'F' then some (c.toNat - 55)
  else none

/-- The value of four hexadecimal digits. -/
def hexUnit? (a b c d : Char) : Option Nat := do
  let a ← hexDigit? a
  let b ← hexDigit? b
  let c ← hexDigit? c
  let d ← hexDigit? d
  return ((a * 16 + b) * 16 + c) * 16 + d

/-- Whether a 16-bit unit is the first half of a pair. -/
def isHighSurrogate (u : Nat) : Bool := 0xD800 ≤ u && u ≤ 0xDBFF

/-- Whether a 16-bit unit is the second half of a pair. -/
def isLowSurrogate (u : Nat) : Bool := 0xDC00 ≤ u && u ≤ 0xDFFF

/-- The character of a pair of surrogates. -/
def pairChar (high low : Nat) : Char :=
  Char.ofNat (0x10000 + (high - 0xD800) * 0x400 + (low - 0xDC00))

/-- The character of the hexadecimal escape after `u`. -/
def hexEscape : (input : List Char) → Option (Taken Char input)
  | a :: b :: c :: d :: rest =>
    match hexUnit? a b c d with
    | none => none
    | some unit =>
      if isHighSurrogate unit then
        match rest with
        | '\\' :: 'u' :: a' :: b' :: c' :: d' :: rest =>
          match hexUnit? a' b' c' d' with
          | some low =>
            if isLowSurrogate low then
              some ⟨pairChar unit low, [a, b, c, d, '\\', 'u', a', b', c', d'], rest, rfl⟩
            else none
          | none => none
        | _ => none
      else if isLowSurrogate unit then none
      else some ⟨Char.ofNat unit, [a, b, c, d], rest, rfl⟩
  | _ => none

/-- The character of the escape after a backslash. Fails with the text of the escape, the backslash
    apart. -/
def escape : (input : List Char) → Except (List Char) (Taken Char input)
  | [] => .error []
  | c :: rest =>
    if c = 'u' then
      match hexEscape rest with
      | some t => .ok ⟨t.value, c :: t.text, t.rest, by rw [List.cons_append, t.whole]⟩
      | none => .error ('u' :: rest.take 4)
    else
      match simpleEscape c with
      | some value => .ok ⟨value, [c], rest, rfl⟩
      | none => .error [c]

/-! ## 3. Laws -/

/-- The value and the rest of a reading. -/
def outcome {input : List Char} (r : Except (List Char) (Taken Char input)) :
    Option (Char × List Char) :=
  match r with
  | .ok t => some (t.value, t.rest)
  | .error _ => none

/-- The four digits that writing gives to a character below U+0020 are read back. -/
theorem hexUnit?_hexChar : ∀ n, n < 0x20 →
    hexUnit? '0' '0' (hexChar (n / 16)) (hexChar (n % 16)) = some n := by
  decide

/-- A character that writing escapes is read back. -/
theorem escape_encodeChar (c : Char) (e rest : List Char) (h : encodeChar c = '\\' :: e) :
    outcome (escape (e ++ rest)) = some (c, rest) := by
  unfold encodeChar at h
  iterate 7
    split at h
    · rename_i hc
      subst hc
      cases h
      rfl
  split at h
  · rename_i hc
    cases h
    have hu := hexUnit?_hexChar c.toNat hc
    have hh : isHighSurrogate c.toNat = false := by simp [isHighSurrogate]; omega
    have hl : isLowSurrogate c.toNat = false := by simp [isLowSurrogate]; omega
    simp [escape, hexEscape, outcome, hu, hh, hl, Char.ofNat_toNat]
  · rename_i hb _ _ _ _ _ _
    cases h
    exact absurd rfl hb

end FieldSelection.Text
