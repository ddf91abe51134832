import FieldSelection.Grammar.Failure
import FieldSelection.Selection.Path
import FieldSelection.Text.Blank

/-!
# From characters to tokens

A selection text is read as gaps and lexemes in turn:

* a gap is any run of white space, commas and comments, a comment going from `#` to the end of its
  line (`gap`);
* a lexeme is the longest name, number, string, mark or spread at its place (`lexeme`).

Both keep the characters that they take, so gaps and lexemes put together are the source; offsets
count their bytes.
-/

namespace FieldSelection.Grammar

open Text (bytes isBlank)

/-! ## 1. Gaps -/

/-- The blanks, commas and comments in front; `comment` where the text starts inside of a
    comment. -/
def gap : (comment : Bool) → (input : List Char) → Taken Unit input
  | _, [] => ⟨(), [], [], rfl⟩
  | true, c :: rest => (gap (c != '\n') rest).cons c
  | false, c :: rest =>
    if isBlank c || c == ',' then (gap false rest).cons c
    else if c == '#' then (gap true rest).cons c
    else ⟨(), [], c :: rest, rfl⟩

/-! ## 2. Strings -/

/-- A string after its opening quote, `start` bytes from that quote. A fault comes with the number
    of bytes from the quote, too. -/
def stringRest (start : Nat) (input : List Char) : Except Failure (Taken (List Char) input) :=
  match input with
  | [] => .error ⟨.unterminatedString, 0⟩
  | c :: rest =>
    if c = '"' then .ok ⟨[], [c], rest, rfl⟩
    else if c = '\n' then .error ⟨.unterminatedString, 0⟩
    else if c = '\\' then
      match rest with
      | [] => .error ⟨.unterminatedString, 0⟩
      | e :: rest =>
        match Text.escape (e :: rest) with
        | .error text => .error ⟨.invalidEscape (String.ofList ('\\' :: text)), start⟩
        | .ok t =>
          have ht : t.rest.length < rest.length + 2 := Nat.lt_succ_of_le t.rest_le
          match stringRest (start + bytes (c :: t.text)) t.rest with
          | .error failure => .error failure
          | .ok s => .ok ⟨t.value :: s.value, c :: t.text ++ s.text, s.rest, by
              rw [List.cons_append, List.cons_append, List.append_assoc, s.whole, t.whole]⟩
    else
      match stringRest (start + bytes [c]) rest with
      | .error failure => .error failure
      | .ok s => .ok ((s.map (c :: ·)).cons c)
  termination_by input.length

/-! ## 3. Numbers -/

/-- The number of a literal; its text is the fault where it has a leading zero, or is too great. -/
def numberOf (negative : Bool) (whole : List Char) (fraction : Option (List Char))
    (text : List Char) : Except Failure Token.Kind :=
  if 1 < whole.length && whole.head? == some '0' then
    .error ⟨.invalidNumber (String.ofList text), 0⟩
  else
    match Numeral.ofParts? ⟨negative, whole, fraction, none⟩ with
    | some n => .ok (.number n)
    | none => .error ⟨.invalidNumber (String.ofList text), 0⟩

/-- A number that starts with `c`, a digit or the minus sign: digits, then a point and digits. A
    point that another one follows does not belong to the number. -/
def number (c : Char) (input : List Char) : Except Failure (Taken Token.Kind input) :=
  let ds := takeWhile Char.isDigit input
  let whole := if c = '-' then ds.text else c :: ds.text
  if whole.isEmpty then .error ⟨.invalidNumber (String.ofList [c]), 0⟩
  else
    match hd : ds.rest with
    | '.' :: after =>
      if after.head? = some '.' then
        (numberOf (c == '-') whole none (c :: ds.text)).map fun kind => ds.map fun _ => kind
      else
        let fs := takeWhile Char.isDigit after
        if fs.text.isEmpty then
          .error ⟨.invalidNumber (String.ofList (c :: ds.text ++ ['.'])), 0⟩
        else
          (numberOf (c == '-') whole (some fs.text) (c :: ds.text ++ '.' :: fs.text)).map
            fun kind => ⟨kind, ds.text ++ '.' :: fs.text, fs.rest, by
              rw [List.append_assoc, List.cons_append, fs.whole, ← hd, ds.whole]⟩
    | _ => (numberOf (c == '-') whole none (c :: ds.text)).map fun kind => ds.map fun _ => kind

/-! ## 4. Lexemes -/

/-- The token that starts with `c`, and the characters after `c` that belong to it. A fault comes
    with the number of bytes from `c`. -/
def lexeme (c : Char) (input : List Char) : Except Failure (Taken Token.Kind input) :=
  if c = '"' then (stringRest 1 input).map fun s => s.map fun cs => .string (String.ofList cs)
  else if c = '-' || c.isDigit then number c input
  else if c = '.' then
    match input with
    | '.' :: '.' :: rest => .ok ⟨.spread, ['.', '.'], rest, rfl⟩
    | _ => .error ⟨.unexpectedCharacter c, 0⟩
  else
    match Mark.ofChar? c with
    | some m => .ok ⟨.mark m, [], input, rfl⟩
    | none =>
      if isNameStart c then
        let t := takeWhile isNameChar input
        .ok (t.map fun _ => .name (String.ofList (c :: t.text)))
      else .error ⟨.unexpectedCharacter c, 0⟩

/-- The tokens of a text that starts at an offset. -/
def tokens (start : Nat) (input : List Char) : Except Failure (List Token) :=
  let g := gap false input
  let offset := start + bytes g.text
  match hg : g.rest with
  | [] => .ok []
  | c :: rest =>
    match lexeme c rest with
    | .error failure => .error ⟨failure.fault, offset + failure.offset⟩
    | .ok t =>
      have ht : t.rest.length < input.length := by
        have h1 := t.rest_le
        have h2 := g.rest_le
        rw [hg, List.length_cons] at h2
        omega
      match tokens (offset + bytes (c :: t.text)) t.rest with
      | .error failure => .error failure
      | .ok ts => .ok (⟨t.value, offset⟩ :: ts)
  termination_by input.length

end FieldSelection.Grammar
