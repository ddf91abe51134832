import FieldSelection.Json.Basic
import FieldSelection.Proofs.Grammar.Strings
import FieldSelection.Proofs.Number.Digits
import Mathlib.Data.List.TakeWhile

/-!
# Compact texts determine their documents

The text of a document without blanks says where it ends, whatever comes after it: a string ends at
the first quote that is not escaped, an array and an object at their bracket, and an integer where
the next character is no digit.

* The first character of a text says what kind of a document it is of (`kind?`), and no bracket,
  colon or comma that ends a document can begin one.
* So two texts that go on in some way and are the same are the texts of one document, and go on in
  the same way (`compactChars_append_inj`); the numbers in both are integers.
* The text determines the document (`compact_inj`).
-/

namespace FieldSelection

open Grammar

/-! ## 1. Integers and strings -/

/-- No digit goes on here. -/
def NoDigit (cs : List Char) : Prop :=
  ∀ c ∈ cs.head?, c.isDigit = false

theorem Numeral.digitChars_append_inj {m n : Nat} {r r' : List Char} (hr : NoDigit r)
    (hr' : NoDigit r') (h : digitChars m ++ r = digitChars n ++ r') : m = n ∧ r = r' := by
  have htake : ∀ (k : Nat) {r : List Char}, NoDigit r →
      (digitChars k ++ r).takeWhile Char.isDigit = digitChars k := by
    intro k r hr
    rw [takeWhile_append_of_head hr]
    exact List.takeWhile_eq_self_iff.mpr fun c hc => isDigit_of_mem_digitChars hc
  have hdigits := congrArg (List.takeWhile Char.isDigit) h
  rw [htake m hr, htake n hr'] at hdigits
  refine ⟨?_, List.append_cancel_left (hdigits ▸ h)⟩
  rw [← digitsValue_digitChars m, hdigits, digitsValue_digitChars]

/-- The digits of a number start with a digit. -/
theorem Numeral.exists_digitChars_eq_cons (n : Nat) :
    ∃ c cs, digitChars n = c :: cs ∧ c.isDigit = true := by
  obtain ⟨c, cs, hcs⟩ := List.exists_cons_of_ne_nil (digitChars_ne_nil n)
  exact ⟨c, cs, hcs, isDigit_of_mem_digitChars (hcs ▸ List.mem_cons_self)⟩

theorem Numeral.intChars_append_inj {m n : Int} {r r' : List Char} (hr : NoDigit r)
    (hr' : NoDigit r') (h : intChars m ++ r = intChars n ++ r') : m = n ∧ r = r' := by
  have hsign : ∀ (k : Nat) (s s' : List Char), '-' :: s ≠ digitChars k ++ s' := by
    intro k s s' heq
    obtain ⟨c, cs, hcs, hc⟩ := exists_digitChars_eq_cons k
    rw [hcs] at heq
    cases heq
    cases hc
  unfold intChars at h
  split at h <;> split at h
  · obtain ⟨habs, hrest⟩ := digitChars_append_inj hr hr' (List.cons.inj h).2
    exact ⟨by omega, hrest⟩
  · exact absurd h (hsign _ _ _)
  · exact absurd h.symm (hsign _ _ _)
  · obtain ⟨habs, hrest⟩ := digitChars_append_inj hr hr' h
    exact ⟨by omega, hrest⟩

/-- A quoted string says where it ends. -/
theorem Text.quoted_append_inj {cs ds r r' : List Char}
    (h : quoted cs ++ r = quoted ds ++ r') : cs = ds ∧ r = r' := by
  rw [quoted, quoted, List.cons_append, List.cons_append, List.cons_append, List.cons_append,
    List.append_assoc, List.append_assoc] at h
  -- Both strings are what is read from the same characters.
  have hread : stringAt 0 (cs.flatMap encodeChar ++ '"' :: r) = .ok (cs, r) :=
    stringAt_eq_ok_iff.mpr ⟨_, rfl, denotes_encodeChars cs⟩
  have hread' : stringAt 0 (cs.flatMap encodeChar ++ '"' :: r) = .ok (ds, r') :=
    stringAt_eq_ok_iff.mpr ⟨_, (List.cons.inj h).2, denotes_encodeChars ds⟩
  exact Prod.mk.inj (Except.ok.inj (hread.symm.trans hread'))

/-- A number that is an integer. -/
def Numeral.IsInteger (n : Numeral) : Prop :=
  ∃ i, n = .integer i

namespace Json

/-! ## 2. Kinds of documents -/

mutual

/-- All numbers in a document are integers. -/
def Integral : Json → Prop
  | .number n => n.IsInteger
  | .array items => ItemsIntegral items
  | .object entries => EntriesIntegral entries
  | _ => True

/-- All numbers in the items of an array are integers. -/
def ItemsIntegral : List Json → Prop
  | [] => True
  | item :: rest => Integral item ∧ ItemsIntegral rest

/-- All numbers in entries are integers. -/
def EntriesIntegral : List (String × Json) → Prop
  | [] => True
  | (_, value) :: rest => Integral value ∧ EntriesIntegral rest

end

theorem entriesIntegral_iff {entries : List (String × Json)} :
    EntriesIntegral entries ↔ ∀ e ∈ entries, e.2.Integral := by
  induction entries with
  | nil => simp [EntriesIntegral]
  | cons e rest ih => rw [List.forall_mem_cons, ← ih, EntriesIntegral]

/-- What a document is, its content apart. -/
inductive Kind where
  | null
  | boolean
  | number
  | string
  | array
  | object
  deriving DecidableEq

/-- The kind of a document. -/
def kind : Json → Kind
  | .null => .null
  | .boolean _ => .boolean
  | .number _ => .number
  | .string _ => .string
  | .array _ => .array
  | .object _ => .object

/-- The kind of the documents whose text starts with a character. -/
def kind? (c : Char) : Option Kind :=
  if c.isDigit then some .number
  else match c with
    | '-' => some .number
    | 'n' => some .null
    | 't' => some .boolean
    | 'f' => some .boolean
    | '"' => some .string
    | '[' => some .array
    | '{' => some .object
    | _ => none

/-- The first character of a text says what the document is. -/
theorem exists_compactChars_eq_cons {j : Json} (h : j.Integral) :
    ∃ c cs, j.compactChars = c :: cs ∧ kind? c = some j.kind := by
  cases j with
  | null => exact ⟨'n', _, rfl, rfl⟩
  | boolean b => cases b <;> exact ⟨_, _, rfl, rfl⟩
  | string s => exact ⟨'"', _, rfl, rfl⟩
  | array items => exact ⟨'[', _, rfl, rfl⟩
  | object entries => exact ⟨'{', _, rfl, rfl⟩
  | number n =>
    obtain ⟨i, rfl⟩ := h
    rw [compactChars, Numeral.chars, Numeral.intChars]
    split
    · exact ⟨'-', _, rfl, rfl⟩
    · obtain ⟨c, cs, hcs, hc⟩ := Numeral.exists_digitChars_eq_cons i.natAbs
      exact ⟨c, cs, hcs, if_pos hc⟩

/-- Texts that go on to be the same are texts of documents of one kind. -/
theorem kind_eq_of_append {j k : Json} {r r' : List Char} (hj : j.Integral) (hk : k.Integral)
    (h : j.compactChars ++ r = k.compactChars ++ r') : j.kind = k.kind := by
  obtain ⟨c, cs, hcs, hc⟩ := exists_compactChars_eq_cons hj
  obtain ⟨d, ds, hds, hd⟩ := exists_compactChars_eq_cons hk
  rw [hcs, hds] at h
  obtain ⟨rfl, -⟩ := List.cons.inj h
  exact Option.some.inj (hc.symm.trans hd)

/-! ## 3. Parts between brackets -/

section Parts

variable {close : Char}

/-- Parts with a comma ahead of each, and the bracket after them. -/
def listed (close : Char) (parts : List (List Char)) (r : List Char) : List Char :=
  parts.flatMap (',' :: ·) ++ close :: r

theorem listed_cons (part : List Char) (parts : List (List Char)) (r : List Char) :
    listed close (part :: parts) r = ',' :: (part ++ listed close parts r) := by
  simp [listed]

/-- Parts with a comma between them, and the bracket after them. -/
theorem intercalate_append (part : List Char) (parts : List (List Char)) (r : List Char) :
    List.intercalate [','] (part :: parts) ++ close :: r = part ++ listed close parts r := by
  induction parts generalizing part with
  | nil => rw [List.intercalate_singleton]; rfl
  | cons next parts ih =>
    rw [List.intercalate_cons_cons, List.append_assoc, List.append_assoc, ih, listed_cons]
    rfl

/-- A character that no document begins with. -/
def Ends (c : Char) : Prop :=
  kind? c = none

theorem ends_bracket : Ends ']' := rfl

theorem ends_brace : Ends '}' := rfl

/-- A part that begins like a document. -/
def Begins (part : List Char) : Prop :=
  ∃ c cs, part = c :: cs ∧ ¬ Ends c

theorem Ends.isDigit {c : Char} (h : Ends c) : c.isDigit = false := by
  unfold Ends kind? at h
  split at h
  · cases h
  · rename_i hc
    exact Bool.eq_false_iff.mpr hc

theorem noDigit_listed (h : Ends close) (parts : List (List Char)) (r : List Char) :
    NoDigit (listed close parts r) := by
  cases parts with
  | nil => simpa [NoDigit, listed] using h.isDigit
  | cons part parts => simp [NoDigit, listed_cons]

/-- No part begins with the bracket that ends the parts, so the first comma does not matter. -/
theorem listed_eq_of_intercalate (h : Ends close) {parts parts' : List (List Char)}
    (hparts : ∀ part ∈ parts, Begins part) (hparts' : ∀ part ∈ parts', Begins part)
    {r r' : List Char}
    (heq : List.intercalate [','] parts ++ close :: r =
      List.intercalate [','] parts' ++ close :: r') :
    listed close parts r = listed close parts' r' := by
  have hne : ∀ {part : List Char} {parts : List (List Char)} {s s' : List Char}, Begins part →
      List.intercalate [','] (part :: parts) ++ close :: s ≠ close :: s' := by
    rintro part parts s s' ⟨c, cs, rfl, hc⟩ hcs
    rw [intercalate_append, List.cons_append] at hcs
    exact hc ((List.cons.inj hcs).1 ▸ h)
  cases parts with
  | nil =>
    cases parts' with
    | nil => exact heq
    | cons part' parts' => exact absurd heq.symm (hne (hparts' part' List.mem_cons_self))
  | cons part parts =>
    cases parts' with
    | nil => exact absurd heq (hne (hparts part List.mem_cons_self))
    | cons part' parts' =>
      rw [intercalate_append, intercalate_append] at heq
      rw [listed_cons, listed_cons, heq]

end Parts

theorem begins_compactChars {j : Json} (h : j.Integral) : Begins j.compactChars := by
  obtain ⟨c, cs, hcs, hc⟩ := exists_compactChars_eq_cons h
  refine ⟨c, cs, hcs, fun hends => ?_⟩
  cases hc.symm.trans hends

theorem begins_compactItems : ∀ {items : List Json}, ItemsIntegral items →
    ∀ part ∈ compactItems items, Begins part
  | [], _ => List.forall_mem_nil _
  | _ :: _, ⟨hitem, hrest⟩ =>
      List.forall_mem_cons.mpr ⟨begins_compactChars hitem, begins_compactItems hrest⟩

theorem begins_compactEntries : ∀ entries : List (String × Json),
    ∀ part ∈ compactEntries entries, Begins part
  | [] => List.forall_mem_nil _
  | (_, _) :: rest =>
      List.forall_mem_cons.mpr
        ⟨⟨'"', _, rfl, Option.some_ne_none Kind.string⟩, begins_compactEntries rest⟩

/-! ## 4. Texts and documents -/

theorem compactChars_array_append (items : List Json) (r : List Char) :
    (array items).compactChars ++ r =
      '[' :: (List.intercalate [','] (compactItems items) ++ ']' :: r) := by
  simp [compactChars]

theorem compactChars_object_append (entries : List (String × Json)) (r : List Char) :
    (object entries).compactChars ++ r =
      '{' :: (List.intercalate [','] (compactEntries entries) ++ '}' :: r) := by
  simp [compactChars]

mutual

-- The induction is on the first document. The kinds are a hypothesis, so that only pairs of the
-- same constructor are left; for what stands inside they follow from the texts
-- (`kind_eq_of_append`).

/-- Documents of one kind whose texts go on to be the same are one document. -/
theorem append_inj_of_kind : ∀ {j k : Json} {r r' : List Char}, j.kind = k.kind → j.Integral →
    k.Integral → NoDigit r → NoDigit r' → j.compactChars ++ r = k.compactChars ++ r' →
      j = k ∧ r = r'
  | .null, .null, _, _, _, _, _, _, _, h => ⟨rfl, List.append_cancel_left h⟩
  | .boolean b, .boolean c, r, r', _, _, _, _, _, h => by
      have hrest : b = c ∧ r = r' := by
        cases b <;> cases c <;> simp_all [compactChars, booleanChars]
      exact ⟨congrArg _ hrest.1, hrest.2⟩
  | .number _, .number _, _, _, _, ⟨m, rfl⟩, ⟨n, rfl⟩, hr, hr', h => by
      obtain ⟨rfl, hrest⟩ := Numeral.intChars_append_inj hr hr' h
      exact ⟨rfl, hrest⟩
  | .string s, .string t, _, _, _, _, _, _, _, h => by
      obtain ⟨hst, hrest⟩ := Text.quoted_append_inj h
      exact ⟨congrArg _ (String.toList_inj.mp hst), hrest⟩
  | .array items, .array items', r, r', _, hj, hk, _, _, h => by
      rw [compactChars_array_append, compactChars_array_append] at h
      have hlisted := listed_eq_of_intercalate ends_bracket (begins_compactItems hj)
        (begins_compactItems hk) (List.cons.inj h).2
      obtain ⟨rfl, hrest⟩ := items_inj_of_listed hj hk hlisted
      exact ⟨rfl, hrest⟩
  | .object entries, .object entries', r, r', _, hj, hk, _, _, h => by
      rw [compactChars_object_append, compactChars_object_append] at h
      have hlisted := listed_eq_of_intercalate ends_brace (begins_compactEntries entries)
        (begins_compactEntries entries') (List.cons.inj h).2
      obtain ⟨rfl, hrest⟩ := entries_inj_of_listed hj hk hlisted
      exact ⟨rfl, hrest⟩

/-- Items whose texts go on to be the same are the same. -/
theorem items_inj_of_listed : ∀ {items items' : List Json} {r r' : List Char},
    ItemsIntegral items → ItemsIntegral items' →
      listed ']' (compactItems items) r = listed ']' (compactItems items') r' →
        items = items' ∧ r = r'
  | [], [], _, _, _, _, h => ⟨rfl, (List.cons.inj h).2⟩
  | [], _ :: _, _, _, _, _, h => by cases h
  | _ :: _, [], _, _, _, _, h => by cases h
  | item :: rest, item' :: rest', r, r', ⟨hitem, hrest⟩, ⟨hitem', hrest'⟩, h => by
      rw [compactItems, compactItems, listed_cons, listed_cons] at h
      have hparts := (List.cons.inj h).2
      obtain ⟨rfl, hlisted⟩ := append_inj_of_kind (kind_eq_of_append hitem hitem' hparts) hitem
        hitem' (noDigit_listed ends_bracket _ _) (noDigit_listed ends_bracket _ _) hparts
      obtain ⟨rfl, hend⟩ := items_inj_of_listed hrest hrest' hlisted
      exact ⟨rfl, hend⟩

/-- Entries whose texts go on to be the same are the same. -/
theorem entries_inj_of_listed : ∀ {entries entries' : List (String × Json)} {r r' : List Char},
    EntriesIntegral entries → EntriesIntegral entries' →
      listed '}' (compactEntries entries) r = listed '}' (compactEntries entries') r' →
        entries = entries' ∧ r = r'
  | [], [], _, _, _, _, h => ⟨rfl, (List.cons.inj h).2⟩
  | [], (_, _) :: _, _, _, _, _, h => by cases h
  | (_, _) :: _, [], _, _, _, _, h => by cases h
  | (key, value) :: rest, (key', value') :: rest', r, r', ⟨hvalue, hrest⟩, ⟨hvalue', hrest'⟩,
    h => by
      rw [compactEntries, compactEntries, listed_cons, listed_cons, List.append_assoc,
        List.append_assoc] at h
      obtain ⟨hkey, hparts⟩ := Text.quoted_append_inj (List.cons.inj h).2
      have hparts := (List.cons.inj hparts).2
      obtain ⟨rfl, hlisted⟩ := append_inj_of_kind (kind_eq_of_append hvalue hvalue' hparts) hvalue
        hvalue' (noDigit_listed ends_brace _ _) (noDigit_listed ends_brace _ _) hparts
      obtain ⟨rfl, hend⟩ := entries_inj_of_listed hrest hrest' hlisted
      exact ⟨by rw [String.toList_inj.mp hkey], hend⟩

end

/-- **A compact text says what document it is of and where it ends**, where all numbers are integers
    and no digit comes next. -/
theorem compactChars_append_inj {j k : Json} {r r' : List Char} (hj : j.Integral)
    (hk : k.Integral) (hr : NoDigit r) (hr' : NoDigit r')
    (h : j.compactChars ++ r = k.compactChars ++ r') : j = k ∧ r = r' :=
  append_inj_of_kind (kind_eq_of_append hj hk h) hj hk hr hr' h

/-- Documents with integers for numbers have one compact text only if they are the same. -/
theorem compact_inj {j k : Json} (hj : j.Integral) (hk : k.Integral) :
    j.compact = k.compact ↔ j = k := by
  constructor
  · intro h
    have hchars : j.compactChars ++ [] = k.compactChars ++ [] :=
      congrArg (· ++ []) (String.ofList_inj.mp h)
    exact (compactChars_append_inj hj hk (by simp [NoDigit]) (by simp [NoDigit]) hchars).1
  · rintro rfl
    rfl

end Json

end FieldSelection
