import FieldSelection.Proofs.Grammar.Scanning
import FieldSelection.Proofs.Number.Digits
import Mathlib.Algebra.Ring.Int.Defs
import Mathlib.Data.List.TakeWhile

/-!
# Numbers in texts

* A literal of digits, with or without a fraction, is one number token (`kinds?_integer`,
  `kinds?_decimal`).
* Numbers stand in a text as if they stood alone (`kinds?_chars`).
* A number reads back if its text is this number and nothing else (`Numeral.Rereads`); all integers
  of 64 bits do (`rereads_integer`).
-/

namespace FieldSelection

/-- The text of the number is read as this number and nothing else. -/
def Numeral.Rereads (n : Numeral) : Prop :=
  Grammar.kinds? n.chars = some [.number n]

namespace Grammar

open Numeral (isNumberChar digitChars)

/-! ## 1. Literals -/

theorem startsGap_of_isDigit {c : Char} (h : c.isDigit = true) : startsGap c = false := by
  obtain ⟨hlow, hhigh⟩ := toNat_of_isDigit h
  exact startsGap_of_toNat hlow (by omega)

theorem ne_minus_of_isDigit {c : Char} (h : c.isDigit = true) : c ≠ '-' := by
  rintro rfl
  cases h

/-- The number that starts with `c` and goes on with digits, and maybe with a fraction. -/
theorem lexeme?_digits {c : Char} {cs tail : List Char} (hc : c = '-' ∨ c.isDigit = true)
    (hcs : ∀ d ∈ cs, d.isDigit = true) (htail : ∀ d ∈ tail.head?, d.isDigit = false)
    (hne : wholeDigits c cs ≠ []) :
    lexeme? c (cs ++ tail) = (fraction? tail).bind fun f =>
      (numeral? (c == '-') (wholeDigits c cs) f.1).map (·, f.2) := by
  have hdrop : cs.dropWhile Char.isDigit = [] := List.dropWhile_eq_nil_iff.mpr hcs
  have hwhole : wholeDigits c (cs ++ tail) = wholeDigits c cs := by
    rw [wholeDigits, wholeDigits, takeWhile_append_of_head htail]
  rw [lexeme?_number _ hc, number_toOption, hwhole, dropWhile_append_of_head htail, hdrop,
    List.nil_append, if_neg]
  simpa using hne

/-- A text that starts with digits, maybe with a minus sign ahead of them. -/
theorem kinds?_digits (negative : Bool) {whole : List Char} (tail : List Char)
    (hwhole : ∀ c ∈ whole, c.isDigit = true) (hne : whole ≠ [])
    (htail : ∀ c ∈ tail.head?, c.isDigit = false) :
    kinds? ((if negative then ['-'] else []) ++ (whole ++ tail)) =
      (fraction? tail).bind fun f =>
        (numeral? negative whole f.1).bind fun k => (kinds? f.2).map (k :: ·) := by
  have hlex : ∀ (c : Char) (cs : List Char), c = '-' ∨ c.isDigit = true → (c == '-') = negative →
      (∀ d ∈ cs, d.isDigit = true) → wholeDigits c cs = whole → startsGap c = false →
        kinds? (c :: (cs ++ tail)) = (fraction? tail).bind fun f =>
          (numeral? negative whole f.1).bind fun k => (kinds? f.2).map (k :: ·) := by
    intro c cs hc hsign hcs hdigits hgap
    rw [kinds?_cons _ hgap, lexeme?_digits hc hcs htail (hdigits ▸ hne), hsign, hdigits]
    cases fraction? tail with
    | none => rfl
    | some f =>
      rw [Option.bind_some, Option.bind_some]
      cases numeral? negative whole f.1 <;> rfl
  cases negative with
  | true =>
    have hdigits : wholeDigits '-' whole = whole := List.takeWhile_eq_self_iff.mpr hwhole
    exact hlex '-' whole (Or.inl rfl) rfl hwhole hdigits (by decide)
  | false =>
    obtain ⟨c, cs, rfl⟩ := List.exists_cons_of_ne_nil hne
    obtain ⟨hc, hcs⟩ := List.forall_mem_cons.mp hwhole
    have hminus := ne_minus_of_isDigit hc
    have hdigits : wholeDigits c cs = c :: cs := by
      rw [wholeDigits, if_neg hminus, List.takeWhile_eq_self_iff.mpr hcs]
    exact hlex c cs (Or.inr hc) (by simpa using hminus) hcs hdigits (startsGap_of_isDigit hc)

/-- Digits are a number. -/
theorem kinds?_integer (negative : Bool) {whole : List Char}
    (hwhole : ∀ c ∈ whole, c.isDigit = true) (hne : whole ≠ []) :
    kinds? ((if negative then ['-'] else []) ++ whole) =
      (numeral? negative whole none).map ([·]) := by
  have hnil : kinds? [] = some [] := kinds?_of_gap rfl
  have h := kinds?_digits negative [] hwhole hne (by simp)
  rw [List.append_nil, fraction?_of_head_ne (by simp), Option.bind_some, hnil] at h
  rw [h]
  cases numeral? negative whole none <;> rfl

/-- Digits on both sides of a point are a number. -/
theorem kinds?_decimal (negative : Bool) {whole fraction : List Char}
    (hwhole : ∀ c ∈ whole, c.isDigit = true) (hne : whole ≠ [])
    (hfraction : ∀ c ∈ fraction, c.isDigit = true) (hne' : fraction ≠ []) :
    kinds? ((if negative then ['-'] else []) ++ (whole ++ '.' :: fraction)) =
      (numeral? negative whole (some fraction)).map ([·]) := by
  have hnil : kinds? [] = some [] := kinds?_of_gap rfl
  have hpoint : fraction? ('.' :: fraction) = some (some fraction, []) := by
    have hhead : fraction.head? ≠ some '.' := by
      intro h
      cases hfraction '.' (List.mem_of_mem_head? h)
    rw [fraction?_point, if_neg hhead, List.takeWhile_eq_self_iff.mpr hfraction,
      List.dropWhile_eq_nil_iff.mpr hfraction, if_neg (by simpa using hne')]
  have h := kinds?_digits negative ('.' :: fraction) hwhole hne (by simp)
  rw [hpoint, Option.bind_some, hnil] at h
  rw [h]
  cases numeral? negative whole (some fraction) <;> rfl

/-! ## 2. Numbers among other text -/

theorem isTight_of_isNumberChar {c : Char} (h : isNumberChar c = true) : isTight c = true := by
  simp only [isNumberChar, Bool.or_eq_true, beq_iff_eq] at h
  rcases h with (((h | rfl) | rfl) | rfl) | rfl
  · have hquote : c ≠ '"' := by rintro rfl; cases h
    simp [isTight, startsGap_of_isDigit h, hquote]
  all_goals decide

/-- A number stands in a text as if it stood alone. -/
theorem kinds?_chars (n : Numeral) {rest : List Char} (h : Separated rest) :
    kinds? (n.chars ++ rest) = andThen (kinds? n.chars) (kinds? rest) :=
  kinds?_append (fun c hc => isTight_of_isNumberChar (n.all_chars c hc)) h

/-! ## 3. Integers -/

theorem numeral?_eq (negative : Bool) {whole : List Char} (fraction : Option (List Char))
    (h : (1 < whole.length && whole.head? == some '0') = false) :
    numeral? negative whole fraction =
      (Numeral.ofParts? ⟨negative, whole, fraction, none⟩).map .number := by
  rw [numeral?, h, if_neg (by simp)]

/-- Integers of 64 bits, signed or unsigned, read back. -/
theorem rereads_integer {n : Int} (hlow : -2 ^ 63 ≤ n) (hhigh : n < 2 ^ 64) :
    (Numeral.integer n).Rereads := by
  have hdigits : ∀ c ∈ digitChars n.natAbs, c.isDigit = true :=
    fun c => Numeral.isDigit_of_mem_digitChars
  have hkinds := fun negative =>
    kinds?_integer negative hdigits (Numeral.digitChars_ne_nil n.natAbs)
  show kinds? (Numeral.intChars n) = _
  rw [Numeral.intChars]
  split
  · rename_i hneg
    have hzero : n.natAbs ≠ 0 := by omega
    have hbound : n.natAbs ≤ Nat.pow 2 63 := by
      show n.natAbs ≤ 2 ^ 63
      omega
    have hself : -(n.natAbs : Int) = n := by omega
    refine (hkinds true).trans ?_
    rw [numeral?_eq _ _ (Numeral.not_leadingZero_digitChars _), Numeral.ofParts?]
    simp only [Numeral.digitsValue_digitChars, hzero, decide_false, Nat.not_lt.mpr hbound,
      Bool.or_self, hself, Bool.false_eq_true, ↓reduceIte, Option.map_some]
  · rename_i hpos
    have hbound : n.natAbs < Nat.pow 2 64 := by
      show n.natAbs < 2 ^ 64
      omega
    have hself : (n.natAbs : Int) = n := by omega
    refine (hkinds false).trans ?_
    rw [numeral?_eq _ _ (Numeral.not_leadingZero_digitChars _), Numeral.ofParts?]
    simp only [Numeral.digitsValue_digitChars, hbound, hself, Bool.false_eq_true, ↓reduceIte,
      Option.map_some]

end Grammar

end FieldSelection
