import FieldSelection.Proofs.Number.Digits
import FieldSelection.Proofs.Number.Shortest
import Mathlib.Data.List.TakeWhile

/-!
# How doubles are written

* A double that is not zero is written with its shortest digits without the zeros at their end
  (`digits`), the first of them at a power of ten (`power`): `doubleChars_eq`.
* These digits have the value of the shortest digits at their places (`digits_value`), which is at
  least that power of ten and less than the next one (`power_bounds`).
* The positional form has digits on both sides of a point, no leading zero, and the same value
  (`positional_eq`); it shows no exponent.
-/

namespace FieldSelection

namespace Binary64

open Numeral (digitChars digitsValue doubleChars positional scientific)

variable {x : Binary64}

/-! ## 1. Digits and power -/

/-- The digits that a double is written with. -/
def digits (x : Binary64) : List Char :=
  ((digitChars x.shortest.digits).reverse.dropWhile (· == '0')).reverse

/-- The power of ten of the first digit. -/
def power (x : Binary64) : Int := x.shortest.scale + (digitChars x.shortest.digits).length - 1

theorem doubleChars_eq (h : x.significand ≠ 0) :
    doubleChars x = (if x.negative then ['-'] else []) ++
      if -5 ≤ x.power ∧ x.power ≤ 15 then positional x.digits x.power
      else scientific x.digits x.power := by
  rw [doubleChars, if_neg h]
  rfl

theorem exists_zeros (x : Binary64) :
    ∃ k, digitChars x.shortest.digits = x.digits ++ List.replicate k '0' := by
  have hsplit : digitChars x.shortest.digits = x.digits ++
      ((digitChars x.shortest.digits).reverse.takeWhile (· == '0')).reverse := by
    rw [digits, ← List.reverse_append, List.takeWhile_append_dropWhile, List.reverse_reverse]
  refine ⟨_, hsplit.trans (congrArg (x.digits ++ ·) (List.eq_replicate_of_mem fun c hc => ?_))⟩
  have h := List.mem_takeWhile_imp (List.mem_reverse.mp hc)
  simpa using h

theorem isDigit_of_mem_digits {c : Char} (h : c ∈ x.digits) : c.isDigit = true := by
  obtain ⟨k, hk⟩ := x.exists_zeros
  have hmem : c ∈ digitChars x.shortest.digits := hk ▸ List.mem_append_left _ h
  exact Numeral.isDigit_of_mem_digitChars hmem

section Nonzero

variable (hx : x.Canonical) (hpos : 0 < x.significand)
include hx hpos

/-- The first digit is not zero. -/
theorem exists_digits_eq_cons : ∃ d ds, x.digits = d :: ds ∧ d ≠ '0' := by
  obtain ⟨k, hk⟩ := x.exists_zeros
  have hhead := Numeral.head?_digitChars_ne _ (digits_shortest_pos hx hpos)
  rw [hk] at hhead
  cases hd : x.digits with
  | nil =>
    rw [hd, List.nil_append] at hhead hk
    cases k with
    | zero => exact absurd hk (Numeral.digitChars_ne_nil _)
    | succ k => exact absurd rfl hhead
  | cons d ds =>
    rw [hd] at hhead
    exact ⟨d, ds, rfl, fun h => hhead (by rw [h]; rfl)⟩

omit hx hpos in
/-- The digits have the value of the shortest digits at their places. -/
theorem digits_value (x : Binary64) :
    (digitsValue x.digits : ℚ) * 10 ^ (x.power + 1 - x.digits.length) =
      x.shortest.digits * 10 ^ x.shortest.scale := by
  obtain ⟨k, hk⟩ := x.exists_zeros
  have hvalue : x.shortest.digits = 10 ^ k * digitsValue x.digits := by
    rw [← Numeral.digitsValue_digitChars x.shortest.digits, hk, Numeral.digitsValue_append,
      Numeral.digitsValue_replicate_zero, List.length_replicate, Nat.add_zero]
  have hpower : x.power + 1 - x.digits.length = k + x.shortest.scale := by
    rw [power, hk, List.length_append, List.length_replicate]
    push_cast
    ring
  have hvalueQ : (x.shortest.digits : ℚ) = 10 ^ k * digitsValue x.digits := by
    exact_mod_cast hvalue
  rw [hpower, zpow_add₀ (by norm_num), zpow_natCast, hvalueQ]
  ring

/-- The value is in the decade of the power. -/
theorem power_bounds : (10 : ℚ) ^ x.power ≤ x.shortest.digits * 10 ^ x.shortest.scale ∧
    (x.shortest.digits : ℚ) * 10 ^ x.shortest.scale < 10 ^ (x.power + 1) := by
  have hdigits := digits_shortest_pos hx hpos
  have hten := ten_zpow_pos x.shortest.scale
  obtain ⟨k, hk⟩ : ∃ k, (digitChars x.shortest.digits).length = k + 1 :=
    Nat.exists_eq_succ_of_ne_zero (by simp)
  have hhigh : x.shortest.digits < 10 ^ (k + 1) :=
    (Nat.length_toDigits_le_iff (by decide) (Nat.succ_pos k)).mp hk.le
  have hlow : 10 ^ k ≤ x.shortest.digits := by
    cases k with
    | zero => exact hdigits
    | succ k =>
      by_contra hlt
      have hle : (digitChars x.shortest.digits).length ≤ k + 1 :=
        (Nat.length_toDigits_le_iff (by decide) (Nat.succ_pos k)).mpr (not_le.mp hlt)
      omega
  have hpower : x.power = k + x.shortest.scale := by
    rw [power, hk]
    push_cast
    ring
  constructor
  · rw [hpower, zpow_add₀ (by norm_num), zpow_natCast]
    gcongr
    exact_mod_cast hlow
  · have hnext : x.power + 1 = (k + 1 : Nat) + x.shortest.scale := by
      rw [hpower]
      push_cast
      ring
    rw [hnext, zpow_add₀ (by norm_num), zpow_natCast]
    gcongr
    exact_mod_cast hhigh

end Nonzero

end Binary64

namespace Numeral

/-! ## 2. The positional form -/

/-- Digits ahead of a point and after it, without a leading zero. -/
structure Written (whole fraction : List Char) : Prop where
  wholeDigits : ∀ c ∈ whole, c.isDigit = true
  wholeNonempty : whole ≠ []
  notLeading : (1 < whole.length && whole.head? == some '0') = false
  fractionDigits : ∀ c ∈ fraction, c.isDigit = true
  fractionNonempty : fraction ≠ []

/-- The value of digits ahead of a point and after it. -/
def writtenValue (whole fraction : List Char) : ℚ :=
  digitsValue (whole ++ fraction) * 10 ^ (0 - (fraction.length : Int))

theorem all_isDigit_replicate_zero (k : Nat) : ∀ c ∈ List.replicate k '0', c.isDigit = true :=
  fun _ hc => List.eq_of_mem_replicate hc ▸ rfl

theorem digitsValue_zeros_append (k : Nat) (ds : List Char) :
    digitsValue (List.replicate k '0' ++ ds) = digitsValue ds := by
  rw [digitsValue_append, digitsValue_replicate_zero, Nat.mul_zero, Nat.zero_add]

section Positional

variable {d : Char} {ds : List Char} (hds : ∀ c ∈ d :: ds, c.isDigit = true) (hd : d ≠ '0')
  (top : Int)

include hds in
/-- Below one, zeros stand ahead of the digits. -/
theorem positional_of_neg (htop : top < 0) : ∃ whole fraction,
    positional (d :: ds) top = whole ++ '.' :: fraction ∧ Written whole fraction ∧
      writtenValue whole fraction =
        digitsValue (d :: ds) * 10 ^ (top + 1 - (d :: ds).length) := by
  refine ⟨['0'], List.replicate (-top - 1).toNat '0' ++ d :: ds, ?_,
    ⟨by simp, by simp, rfl, ?_, by simp⟩, ?_⟩
  · rw [positional, if_pos htop]
    rfl
  · exact List.forall_mem_append.mpr ⟨all_isDigit_replicate_zero _, hds⟩
  · have hvalue : digitsValue (['0'] ++ (List.replicate (-top - 1).toNat '0' ++ d :: ds)) =
        digitsValue (d :: ds) := by
      have hone : ['0'] = List.replicate 1 '0' := rfl
      rw [hone, digitsValue_zeros_append, digitsValue_zeros_append]
    rw [writtenValue, hvalue]
    congr 2
    simp only [List.length_append, List.length_replicate, List.length_cons]
    omega

include hds hd in
/-- Digits that all stand ahead of the point are filled up with zeros. -/
theorem positional_of_length_le (htop : 0 ≤ top) (hlen : (d :: ds).length ≤ top.toNat + 1) :
    ∃ whole fraction,
      positional (d :: ds) top = whole ++ '.' :: fraction ∧ Written whole fraction ∧
        writtenValue whole fraction =
          digitsValue (d :: ds) * 10 ^ (top + 1 - (d :: ds).length) := by
  obtain ⟨k, hk⟩ := Nat.exists_eq_add_of_le hlen
  refine ⟨d :: ds ++ List.replicate k '0', ['0'], ?_, ⟨?_, by simp, ?_, by simp, by simp⟩, ?_⟩
  · rw [positional, if_neg (not_lt.mpr htop)]
    simp only [List.take_of_length_le hlen, List.drop_eq_nil_of_le hlen]
    rw [hk, Nat.add_sub_cancel_left]
    rfl
  · exact List.forall_mem_append.mpr ⟨hds, all_isDigit_replicate_zero _⟩
  · simp [hd]
  · have hvalue : digitsValue (d :: ds ++ List.replicate k '0' ++ ['0']) =
        10 ^ (k + 1) * digitsValue (d :: ds) := by
      have hone : ['0'] = List.replicate 1 '0' := rfl
      rw [hone, List.append_assoc, List.replicate_append_replicate, digitsValue_append,
        digitsValue_replicate_zero, List.length_replicate, Nat.add_zero]
    have hexp : top + 1 - (d :: ds).length = (k + 1 : Nat) + (0 - (['0'].length : Int)) := by
      simp only [List.length_singleton]
      omega
    rw [writtenValue, hvalue, hexp, zpow_add₀ (by norm_num), zpow_natCast]
    push_cast
    ring

include hds hd in
/-- Other digits stand on both sides of the point. -/
theorem positional_of_lt_length (htop : 0 ≤ top) (hlen : top.toNat + 1 < (d :: ds).length) :
    ∃ whole fraction,
      positional (d :: ds) top = whole ++ '.' :: fraction ∧ Written whole fraction ∧
        writtenValue whole fraction =
          digitsValue (d :: ds) * 10 ^ (top + 1 - (d :: ds).length) := by
  have hdrop : (d :: ds).drop (top.toNat + 1) ≠ [] := by
    rw [ne_eq, List.drop_eq_nil_iff]
    omega
  refine ⟨(d :: ds).take (top.toNat + 1), (d :: ds).drop (top.toNat + 1), ?_,
    ⟨fun c hc => hds c (List.mem_of_mem_take hc), by simp, by simp [hd],
      fun c hc => hds c (List.mem_of_mem_drop hc), hdrop⟩, ?_⟩
  · have hzero : top.toNat + 1 - (d :: ds).length = 0 := by omega
    rw [positional, if_neg (not_lt.mpr htop)]
    simp only [hzero, List.replicate_zero, List.append_nil]
    rw [if_neg (by simpa using hdrop)]
  · rw [writtenValue, List.take_append_drop, List.length_drop]
    congr 2
    omega

include hds hd in
/-- The positional form of digits that do not start with zero. -/
theorem positional_eq : ∃ whole fraction,
    positional (d :: ds) top = whole ++ '.' :: fraction ∧ Written whole fraction ∧
      writtenValue whole fraction =
        digitsValue (d :: ds) * 10 ^ (top + 1 - (d :: ds).length) := by
  by_cases htop : top < 0
  · exact positional_of_neg hds top htop
  by_cases hlen : (d :: ds).length ≤ top.toNat + 1
  · exact positional_of_length_le hds hd top (not_lt.mp htop) hlen
  · exact positional_of_lt_length hds hd top (not_lt.mp htop) (not_le.mp hlen)

end Positional

/-! ## 3. Exponents -/

theorem ne_e_of_isDigit {c : Char} (h : c.isDigit = true) : c ≠ 'e' := by
  rintro rfl
  cases h

theorem e_notMem_digitChars (n : Nat) : 'e' ∉ digitChars n :=
  fun h => ne_e_of_isDigit (isDigit_of_mem_digitChars h) rfl

theorem e_notMem_integer (n : Int) : 'e' ∉ (Numeral.integer n).chars := by
  show 'e' ∉ intChars n
  unfold intChars
  split
  · simp [e_notMem_digitChars]
  · exact e_notMem_digitChars _

/-- The exponent shows in the text of a double just if its first digit is far from the point. -/
theorem e_mem_doubleChars_iff {x : Binary64} (hx : x.Canonical) (hpos : 0 < x.significand) :
    'e' ∈ doubleChars x ↔ ¬(-5 ≤ x.power ∧ x.power ≤ 15) := by
  obtain ⟨d, ds, hdigits, hd⟩ := Binary64.exists_digits_eq_cons hx hpos
  have hds : ∀ c ∈ d :: ds, c.isDigit = true :=
    fun c hc => Binary64.isDigit_of_mem_digits (hdigits ▸ hc)
  have hsign : 'e' ∉ if x.negative then ['-'] else [] := by split <;> simp
  rw [Binary64.doubleChars_eq hpos.ne', List.mem_append, or_iff_right hsign]
  split
  · rename_i hpower
    obtain ⟨whole, fraction, htext, hwritten, -⟩ := positional_eq hds hd x.power
    have hwhole : 'e' ∉ whole := fun h => ne_e_of_isDigit (hwritten.wholeDigits _ h) rfl
    have hfraction : 'e' ∉ fraction := fun h => ne_e_of_isDigit (hwritten.fractionDigits _ h) rfl
    rw [hdigits, htext]
    simp [hwhole, hfraction, hpower]
  · rename_i hpower
    simp [scientific, hpower]

end Numeral

end FieldSelection
