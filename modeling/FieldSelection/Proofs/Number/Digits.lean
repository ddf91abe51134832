import FieldSelection.Number.Numeral
import Mathlib.Algebra.Ring.Nat

/-!
# The digits of written numbers

* Decimal digits have the value that they were written for (`digitsValue_digitChars`), and only zero
  starts with the digit zero (`head?_digitChars_ne`).
* A number is written with digits, signs, the point and the letter of the exponent, and nothing else
  (`all_chars`).
-/

namespace FieldSelection.Numeral

/-! ## 1. Digits and their value -/

theorem digitsValue_eq (cs : List Char) : digitsValue cs = Nat.ofDigitChars 10 cs 0 := rfl

/-- The value of written digits is the number. -/
@[simp] theorem digitsValue_digitChars (n : Nat) : digitsValue (digitChars n) = n :=
  Nat.ofDigitChars_ten_toDigits

theorem digitsValue_append (cs ds : List Char) :
    digitsValue (cs ++ ds) = 10 ^ ds.length * digitsValue cs + digitsValue ds := by
  rw [digitsValue_eq, Nat.ofDigitChars_append, Nat.ofDigitChars_eq_ofDigitChars_zero]
  rfl

@[simp] theorem digitsValue_replicate_zero (k : Nat) : digitsValue (List.replicate k '0') = 0 := by
  rw [digitsValue_eq, Nat.ofDigitChars_replicate_zero, Nat.mul_zero]

theorem isDigit_of_mem_digitChars {n : Nat} {c : Char} (h : c ∈ digitChars n) :
    c.isDigit = true :=
  Nat.isDigit_of_mem_toDigits (by decide) (by decide) h

@[simp] theorem digitChars_ne_nil (n : Nat) : digitChars n ≠ [] :=
  Nat.toDigits_ne_nil

theorem digitChars_of_lt {n : Nat} (h : n < 10) : digitChars n = [n.digitChar] :=
  Nat.toDigits_of_lt_base h

theorem digitChars_of_le {n : Nat} (h : 10 ≤ n) :
    digitChars n = digitChars (n / 10) ++ [(n % 10).digitChar] :=
  Nat.toDigits_of_base_le (by decide) h

/-- A positive number does not start with the digit zero. -/
theorem head?_digitChars_ne (n : Nat) (h : 0 < n) : (digitChars n).head? ≠ some '0' := by
  by_cases hlt : n < 10
  · rw [digitChars_of_lt hlt]
    simp
    omega
  · have ih := head?_digitChars_ne (n / 10) (by omega)
    rw [digitChars_of_le (by omega), List.head?_append, Option.or_of_isSome (by simp)]
    exact ih
  termination_by n

/-- Written digits have no leading zero. -/
theorem not_leadingZero_digitChars (n : Nat) :
    (1 < (digitChars n).length && (digitChars n).head? == some '0') = false := by
  by_cases h : n = 0
  · subst h
    rfl
  · simp [head?_digitChars_ne n (by omega)]

/-! ## 2. What a written number is made of -/

/-- Whether a character stands in a number. -/
def isNumberChar (c : Char) : Bool :=
  c.isDigit || c == '-' || c == '+' || c == '.' || c == 'e'

theorem isNumberChar_of_isDigit {c : Char} (h : c.isDigit = true) : isNumberChar c = true := by
  simp [isNumberChar, h]

theorem all_digitChars (n : Nat) : ∀ c ∈ digitChars n, isNumberChar c = true :=
  fun _ h => isNumberChar_of_isDigit (isDigit_of_mem_digitChars h)

theorem all_positional {ds : List Char} (top : Int) (h : ∀ c ∈ ds, isNumberChar c = true) :
    ∀ c ∈ positional ds top, isNumberChar c = true := by
  have hzeros : ∀ (k : Nat), ∀ c ∈ List.replicate k '0', isNumberChar c = true :=
    fun k c hc => List.eq_of_mem_replicate hc ▸ rfl
  have htake : ∀ (k : Nat), ∀ c ∈ ds.take k, isNumberChar c = true :=
    fun k c hc => h c (List.mem_of_mem_take hc)
  have hdrop : ∀ (k : Nat), ∀ c ∈ ds.drop k, isNumberChar c = true :=
    fun k c hc => h c (List.mem_of_mem_drop hc)
  unfold positional
  split
  · simp only [List.forall_mem_cons, List.forall_mem_append]
    exact ⟨rfl, rfl, hzeros _, h⟩
  · simp only [List.forall_mem_append, List.forall_mem_cons]
    refine ⟨⟨htake _, hzeros _⟩, rfl, ?_⟩
    split
    · exact fun c hc => List.mem_singleton.mp hc ▸ rfl
    · exact hdrop _

theorem all_scientific {ds : List Char} (top : Int) (h : ∀ c ∈ ds, isNumberChar c = true) :
    ∀ c ∈ scientific ds top, isNumberChar c = true := by
  have hexponent : ∀ c ∈ 'e' :: (if top < 0 then '-' else '+') :: digitChars top.natAbs,
      isNumberChar c = true := by
    simp only [List.forall_mem_cons]
    exact ⟨rfl, by split <;> rfl, all_digitChars _⟩
  unfold scientific
  simp only [List.forall_mem_append]
  refine ⟨?_, hexponent⟩
  match ds with
  | [] => exact fun c hc => List.mem_singleton.mp hc ▸ rfl
  | [d] => exact h
  | d :: e :: ds =>
    simp only [List.forall_mem_cons] at h ⊢
    exact ⟨h.1, rfl, h.2⟩

/-- A number is written with number characters only. -/
theorem all_chars : ∀ n : Numeral, ∀ c ∈ n.chars, isNumberChar c = true
  | .integer n => by
      show ∀ c ∈ intChars n, isNumberChar c = true
      unfold intChars
      split
      · simp only [List.forall_mem_cons]
        exact ⟨rfl, all_digitChars _⟩
      · exact all_digitChars _
  | .double x => by
      have hsign : ∀ c ∈ if x.negative then ['-'] else [], isNumberChar c = true := by
        split <;> simp [isNumberChar]
      have hdigits : ∀ c ∈ ((digitChars x.shortest.digits).reverse.dropWhile (· == '0')).reverse,
          isNumberChar c = true := by
        intro c hc
        have hmem := (List.dropWhile_suffix _).mem (List.mem_reverse.mp hc)
        exact all_digitChars _ c (List.mem_reverse.mp hmem)
      show ∀ c ∈ doubleChars x, isNumberChar c = true
      unfold doubleChars
      simp only
      split
      · simp only [List.forall_mem_append]
        exact ⟨hsign, by simp [isNumberChar]⟩
      · simp only [List.forall_mem_append]
        refine ⟨hsign, ?_⟩
        split
        · exact all_positional _ hdigits
        · exact all_scientific _ hdigits

end FieldSelection.Numeral
