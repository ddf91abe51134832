import FieldSelection.Json.Basic

/-!
# Reading JSON

`Json.parse?` reads one document and nothing after it but blanks. Numbers have no leading zero and
none is infinite; strings hold no character below U+0020 and no lone surrogate.
-/

namespace FieldSelection.Json

/-! ## 1. Blanks, numbers and strings -/

/-- The blanks of JSON. -/
def isSpace (c : Char) : Bool :=
  c == ' ' || c == '\t' || c == '\n' || c == '\r'

/-- The text after its leading blanks. -/
def skipSpace (cs : List Char) : List Char := cs.dropWhile isSpace

theorem skipSpace_le (cs : List Char) : (skipSpace cs).length ≤ cs.length :=
  (List.dropWhile_sublist isSpace).length_le

/-- A fraction: nothing, or a point and at least one digit. -/
def fraction? (cs : List Char) : Option (Option (List Char) × List Char) :=
  match cs with
  | '.' :: rest =>
    let ds := rest.takeWhile Char.isDigit
    if ds.isEmpty then none else some (some ds, rest.dropWhile Char.isDigit)
  | _ => some (none, cs)

/-- The digits of an exponent, at least one. -/
def powerDigits? (negative : Bool) (cs : List Char) : Option (Option Int × List Char) :=
  let ds := cs.takeWhile Char.isDigit
  let n : Int := Numeral.digitsValue ds
  if ds.isEmpty then none
  else some (some (if negative then -n else n), cs.dropWhile Char.isDigit)

/-- An exponent: nothing, or `e`, a sign or none, and digits. -/
def power? (cs : List Char) : Option (Option Int × List Char) :=
  match cs with
  | c :: rest =>
    if c == 'e' || c == 'E' then
      match rest with
      | '+' :: rest => powerDigits? false rest
      | '-' :: rest => powerDigits? true rest
      | _ => powerDigits? false rest
    else some (none, cs)
  | [] => some (none, cs)

theorem fraction?_le {cs rest : List Char} {f : Option (List Char)}
    (h : fraction? cs = some (f, rest)) : rest.length ≤ cs.length := by
  unfold fraction? at h
  split at h
  · rename_i r
    have := (List.dropWhile_sublist (l := r) Char.isDigit).length_le
    simp only at h
    split at h
    · cases h
    · cases h; simp only [List.length_cons]; omega
  · cases h; exact Nat.le_refl _

theorem powerDigits?_le {negative : Bool} {cs rest : List Char} {p : Option Int}
    (h : powerDigits? negative cs = some (p, rest)) : rest.length ≤ cs.length := by
  unfold powerDigits? at h
  simp only at h
  split at h
  · cases h
  · cases h; exact (List.dropWhile_sublist Char.isDigit).length_le

theorem power?_le {cs rest : List Char} {p : Option Int}
    (h : power? cs = some (p, rest)) : rest.length ≤ cs.length := by
  unfold power? at h
  split at h
  · split at h
    · split at h <;>
      · have := powerDigits?_le h
        simp only [List.length_cons] at this ⊢
        omega
    · cases h; exact Nat.le_refl _
  · cases h; exact Nat.le_refl _

/-- A number without its sign. -/
def unsigned? (negative : Bool) (cs : List Char) : Option (Parsed Numeral cs) :=
  let whole := cs.takeWhile Char.isDigit
  if hw : whole = [] ∨ (1 < whole.length ∧ whole.head? = some '0') then none
  else
    match hf : fraction? (cs.dropWhile Char.isDigit) with
    | none => none
    | some (fraction, afterFraction) =>
      match hp : power? afterFraction with
      | none => none
      | some (power, rest) =>
        match Numeral.ofParts? ⟨negative, whole, fraction, power⟩ with
        | none => none
        | some n => some ⟨n, rest, by
            have h1 := fraction?_le hf
            have h2 := power?_le hp
            have h3 := congrArg List.length (List.takeWhile_append_dropWhile (p := Char.isDigit)
              (l := cs))
            have h4 : 0 < (cs.takeWhile Char.isDigit).length :=
              List.length_pos_iff.mpr fun h => hw (.inl h)
            rw [List.length_append] at h3
            omega⟩

/-- The rest of a string, after its opening quote. -/
def stringRest? (cs : List Char) : Option (Parsed (List Char) cs) :=
  match cs with
  | [] => none
  | c :: rest =>
    if c = '"' then some (.one [] c rest)
    else if c = '\\' then
      match Text.escape rest with
      | .error _ => none
      | .ok t =>
        match stringRest? t.rest with
        | none => none
        | some s => some (((s.after t).cons c).map (t.value :: ·))
    else if c.toNat < 0x20 then none
    else
      match stringRest? rest with
      | none => none
      | some s => some ((s.cons c).map (c :: ·))
  termination_by cs.length
  decreasing_by
    · have := t.rest_le
      simp only [List.length_cons]
      omega
    · simp only [List.length_cons]
      omega

/-! ## 2. Documents -/

mutual

/-- A document, after blanks. -/
def value? (cs : List Char) : Option (Parsed Json cs) :=
  match h : skipSpace cs with
  | [] => none
  | c :: rest =>
    have hr : rest.length < cs.length := by
      have := skipSpace_le cs
      rw [h] at this
      exact this
    if c = '"' then
      match stringRest? rest with
      | none => none
      | some s => some ⟨.string (String.ofList s.value), s.rest, by have := s.shorter; omega⟩
    else if c = '[' then
      match items? true rest with
      | none => none
      | some s => some ⟨.array s.value, s.rest, by have := s.shorter; omega⟩
    else if c = '{' then
      match entries? true rest with
      | none => none
      | some s => some ⟨.object s.value, s.rest, by have := s.shorter; omega⟩
    else if c = '-' then
      match unsigned? true rest with
      | none => none
      | some s => some ⟨.number s.value, s.rest, by have := s.shorter; omega⟩
    else if c.isDigit then
      match unsigned? false (skipSpace cs) with
      | none => none
      | some s => some ⟨.number s.value, s.rest, by
          have := s.shorter
          have := skipSpace_le cs
          omega⟩
    else if c = 't' ∧ rest.take 3 = ['r', 'u', 'e'] then
      some ⟨.boolean true, rest.drop 3, by rw [List.length_drop]; omega⟩
    else if c = 'f' ∧ rest.take 4 = ['a', 'l', 's', 'e'] then
      some ⟨.boolean false, rest.drop 4, by rw [List.length_drop]; omega⟩
    else if c = 'n' ∧ rest.take 3 = ['u', 'l', 'l'] then
      some ⟨.null, rest.drop 3, by rw [List.length_drop]; omega⟩
    else none
  termination_by 2 * cs.length
  decreasing_by all_goals omega

/-- The items of an array up to its closing bracket; `first` where none stands ahead. -/
def items? (first : Bool) (cs : List Char) : Option (Parsed (List Json) cs) :=
  match h : skipSpace cs with
  | [] => none
  | c :: rest =>
    have hr : rest.length < cs.length := by
      have := skipSpace_le cs
      rw [h] at this
      exact this
    if c = ']' then some ⟨[], rest, hr⟩
    else if first then
      match value? cs with
      | none => none
      | some v =>
        have := v.shorter
        match items? false v.rest with
        | none => none
        | some s => some ⟨v.value :: s.value, s.rest, by have := s.shorter; omega⟩
    else if c = ',' then
      match value? rest with
      | none => none
      | some v =>
        have := v.shorter
        match items? false v.rest with
        | none => none
        | some s => some ⟨v.value :: s.value, s.rest, by have := s.shorter; omega⟩
    else none
  termination_by 2 * cs.length + 1
  decreasing_by all_goals omega

/-- The entries of an object up to its closing brace; `first` where none stands ahead. -/
def entries? (first : Bool) (cs : List Char) : Option (Parsed (List (String × Json)) cs) :=
  match h : skipSpace cs with
  | [] => none
  | c :: rest =>
    have hr : rest.length < cs.length := by
      have := skipSpace_le cs
      rw [h] at this
      exact this
    if c = '}' then some ⟨[], rest, hr⟩
    else if c = '"' ∧ first = true then
      match entry? rest with
      | none => none
      | some e =>
        have := e.shorter
        match entries? false e.rest with
        | none => none
        | some s => some ⟨e.value :: s.value, s.rest, by have := s.shorter; omega⟩
    else if c = ',' ∧ first = false then
      match hq : skipSpace rest with
      | '"' :: afterQuote =>
        have hq' : afterQuote.length < rest.length := by
          have := skipSpace_le rest
          rw [hq] at this
          exact this
        match entry? afterQuote with
        | none => none
        | some e =>
          have := e.shorter
          match entries? false e.rest with
          | none => none
          | some s => some ⟨e.value :: s.value, s.rest, by have := s.shorter; omega⟩
      | _ => none
    else none
  termination_by 2 * cs.length + 1
  decreasing_by all_goals omega

/-- An entry of an object, after the opening quote of its key. -/
def entry? (cs : List Char) : Option (Parsed (String × Json) cs) :=
  match stringRest? cs with
  | none => none
  | some key =>
    have := key.shorter
    match h : skipSpace key.rest with
    | ':' :: rest =>
      have hr : rest.length < key.rest.length := by
        have := skipSpace_le key.rest
        rw [h] at this
        exact this
      match value? rest with
      | none => none
      | some v => some ⟨(String.ofList key.value, v.value), v.rest, by have := v.shorter; omega⟩
    | _ => none
  termination_by 2 * cs.length + 1
  decreasing_by all_goals omega

end

/-- The document that a text holds. -/
def parse? (text : String) : Option Json :=
  match value? text.toList with
  | none => none
  | some v => if skipSpace v.rest = [] then some v.value else none

end FieldSelection.Json
