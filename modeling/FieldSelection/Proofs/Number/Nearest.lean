import FieldSelection.Number.Numeral
import FieldSelection.Proofs.Number.Rounding

/-!
# The numbers that round to a double

* The doubles that rounding comes to are `Canonical`: their significand is full unless their
  exponent is the smallest one.
* The numbers around a double that are no farther than half a unit from it are those that it
  `Covers`; below a power of two the unit is half as great, and the ends belong to even doubles.
* A number that a canonical double covers rounds to it (`ofRatio?_of_covers`).
* What a number rounds to is canonical (`canonical_of_ofRatio?`) and near it
  (`near_of_ofRatio?`).
-/

namespace FieldSelection

namespace Binary64

/-! ## 1. Doubles and the numbers that they cover -/

/-- The doubles that rounding comes to. -/
structure Canonical (x : Binary64) : Prop where
  bound : x.significand < 2 * hiddenBit
  low : minExponent ≤ x.exponent
  high : x.exponent ≤ maxExponent
  full : minExponent < x.exponent → hiddenBit ≤ x.significand

/-- The double without its sign. -/
def magnitude (x : Binary64) : ℚ := x.significand * 2 ^ x.exponent

/-- How far the numbers below a double reach, in units of its last bit. -/
def gap (x : Binary64) : ℚ :=
  if x.significand = hiddenBit ∧ minExponent < x.exponent then 1 / 4 else 1 / 2

/-- The number is at most half a unit away; at the ends, the double has to be even. -/
structure Covers (x : Binary64) (v : ℚ) : Prop where
  low : (x.significand - x.gap) * 2 ^ x.exponent ≤ v
  high : v ≤ (x.significand + 1 / 2) * 2 ^ x.exponent
  even : v = (x.significand - x.gap) * 2 ^ x.exponent ∨
    v = (x.significand + 1 / 2) * 2 ^ x.exponent → x.significand % 2 = 0

theorem gap_le (x : Binary64) : x.gap ≤ 1 / 2 := by
  unfold gap
  split <;> norm_num

theorem hiddenBit_eq : hiddenBit = 4503599627370496 := rfl

/-! ## 2. Rounding to the units of an exponent -/

/-- The significand of a quotient in units of `2^q`. -/
def scaled (num den : Nat) (q : Int) : Nat :=
  roundDiv (num * (powTwo q).2) (den * (powTwo q).1)

/-- The double of a significand of at most 53 bits, or of the next power of two. -/
def fit? (negative : Bool) (m : Nat) (q : Int) : Option Binary64 :=
  let (m, q) := if m = 2 * hiddenBit then (hiddenBit, q + 1) else (m, q)
  if maxExponent < q then none else some ⟨negative, m, q⟩

/-- The exponent of the units that a quotient is rounded to. -/
def unit (num den : Nat) : Int := max (floorLog num den - 52) minExponent

theorem ofRatio?_eq (negative : Bool) {num : Nat} (h : 0 < num) (den : Nat) :
    ofRatio? negative num den = fit? negative (scaled num den (unit num den)) (unit num den) := by
  rw [ofRatio?, if_neg h.ne']
  rfl

section

variable {num den : Nat} (hden : 0 < den) (q : Int)
include hden

theorem ratio_scaled :
    ((num * (powTwo q).2 : Nat) : ℚ) / ((den * (powTwo q).1 : Nat) : ℚ) =
      (num : ℚ) / den / 2 ^ q := by
  have hdenQ : (den : ℚ) ≠ 0 := by exact_mod_cast hden.ne'
  have hup : ((powTwo q).1 : ℚ) ≠ 0 := by exact_mod_cast (powTwo_pos q).1.ne'
  have hdown : ((powTwo q).2 : ℚ) ≠ 0 := by exact_mod_cast (powTwo_pos q).2.ne'
  rw [← powTwo_eq]
  push_cast
  field_simp

/-- The significand is at most half a unit away. -/
theorem scaled_near : |(scaled num den q : ℚ) - (num : ℚ) / den / 2 ^ q| ≤ 1 / 2 := by
  rw [← ratio_scaled hden]
  exact abs_roundDiv_sub_le _ (Nat.mul_pos hden (powTwo_pos q).1)

/-- A significand that is nearer than half a unit, or as near and even, is the one. -/
theorem scaled_eq {m : Nat} (hlow : (m : ℚ) - 1 / 2 ≤ (num : ℚ) / den / 2 ^ q)
    (hhigh : (num : ℚ) / den / 2 ^ q ≤ m + 1 / 2)
    (heven : (num : ℚ) / den / 2 ^ q = m - 1 / 2 ∨ (num : ℚ) / den / 2 ^ q = m + 1 / 2 →
      m % 2 = 0) : scaled num den q = m := by
  rw [← ratio_scaled hden] at hlow hhigh heven
  exact roundDiv_eq (Nat.mul_pos hden (powTwo_pos q).1) hlow hhigh heven

end

/-! ## 3. Numbers that a double covers -/

theorem two_zpow_lt_iff {a b : Int} : (2 : ℚ) ^ a < 2 ^ b ↔ a < b :=
  zpow_lt_zpow_iff_right₀ (by norm_num)

/-- Numbers that a canonical double covers are not in units greater than its own. -/
theorem unit_le_of_covers {x : Binary64} (hx : x.Canonical) {num den : Nat} (hnum : 0 < num)
    (hden : 0 < den) (h : x.Covers ((num : ℚ) / den)) : unit num den ≤ x.exponent := by
  have hlog := (floorLog_spec hnum hden).1
  have hm : (x.significand : ℚ) + 1 / 2 < 2 ^ (53 : Int) := by
    have hbound : (x.significand : ℚ) + 1 ≤ 2 * 4503599627370496 := by exact_mod_cast hx.bound
    norm_num
    linarith
  have hlt : (2 : ℚ) ^ floorLog num den < 2 ^ (53 + x.exponent) := by
    calc (2 : ℚ) ^ floorLog num den ≤ (num : ℚ) / den := hlog
      _ ≤ (x.significand + 1 / 2) * 2 ^ x.exponent := h.high
      _ < 2 ^ (53 : Int) * 2 ^ x.exponent := mul_lt_mul_of_pos_right hm (two_zpow_pos _)
      _ = 2 ^ (53 + x.exponent) := (zpow_add₀ (by norm_num) _ _).symm
  have hexp := two_zpow_lt_iff.mp hlt
  exact max_le (by omega) hx.low

/-- In its own units, a number that a double covers rounds to its significand. -/
theorem scaled_of_covers {x : Binary64} {num den : Nat} (hden : 0 < den)
    (h : x.Covers ((num : ℚ) / den)) : scaled num den x.exponent = x.significand := by
  have hpos := two_zpow_pos x.exponent
  have hgap := x.gap_le
  have hlow := (le_div_iff₀ hpos).mpr h.low
  have hhigh := (div_le_iff₀ hpos).mpr h.high
  refine scaled_eq hden x.exponent (by linarith) hhigh fun hend => h.even (hend.imp ?_ ?_)
  · intro hend
    have hself : x.gap = 1 / 2 := by linarith
    rw [div_eq_iff hpos.ne'] at hend
    rw [hself, hend]
  · intro hend
    rwa [div_eq_iff hpos.ne'] at hend

section Below

variable {x : Binary64} {num den : Nat}

/-- In lesser units than those of a double, a number is below the full significands. -/
theorem lt_of_unit_lt (hnum : 0 < num) (hden : 0 < den) (hlt : unit num den < x.exponent) :
    (num : ℚ) / den < 2 ^ (52 : Int) * 2 ^ x.exponent := by
  have hunit : floorLog num den - 52 < x.exponent := lt_of_le_of_lt (le_max_left _ _) hlt
  rw [← zpow_add₀ (by norm_num)]
  refine lt_of_lt_of_le (floorLog_spec hnum hden).2 (zpow_le_zpow_right₀ (by norm_num) ?_)
  omega

/-- A double that covers a number below the full significands is a power of two. -/
theorem significand_of_below (hx : x.Canonical) (hmin : minExponent < x.exponent)
    (h : x.Covers ((num : ℚ) / den)) (hbelow : (num : ℚ) / den < 2 ^ (52 : Int) * 2 ^ x.exponent) :
    x.significand = hiddenBit := by
  by_contra hne
  have hfull := hx.full hmin
  have hgt : (4503599627370496 : ℚ) + 1 ≤ x.significand := by
    exact_mod_cast (Nat.lt_of_le_of_ne hfull (Ne.symm hne) : hiddenBit + 1 ≤ x.significand)
  have hgap := x.gap_le
  have hlow := lt_of_le_of_lt h.low hbelow
  rw [mul_lt_mul_iff_left₀ (two_zpow_pos x.exponent)] at hlow
  norm_num at hlow
  linarith

/-- A power of two covers a quarter of a unit below it. -/
theorem low_of_significand (hmin : minExponent < x.exponent) (hm : x.significand = hiddenBit)
    (h : x.Covers ((num : ℚ) / den)) :
    (4503599627370496 - 1 / 4 : ℚ) * 2 ^ x.exponent ≤ (num : ℚ) / den := by
  have hgap : x.gap = 1 / 4 := if_pos ⟨hm, hmin⟩
  have hlow := h.low
  rwa [hm, hgap] at hlow

/-- The units of what a power of two covers below it are half as great as its own. -/
theorem unit_of_low (hnum : 0 < num) (hden : 0 < den) (hlt : unit num den < x.exponent)
    (hlow : (4503599627370496 - 1 / 4 : ℚ) * 2 ^ x.exponent ≤ (num : ℚ) / den) :
    unit num den = x.exponent - 1 := by
  have hpos := two_zpow_pos x.exponent
  have hlog : (2 : ℚ) ^ (51 + x.exponent) < 2 ^ (floorLog num den + 1) := by
    refine lt_of_lt_of_le' (floorLog_spec hnum hden).2 ?_
    rw [zpow_add₀ (by norm_num)]
    refine le_trans ?_ hlow
    norm_num
    linarith
  have hexp := two_zpow_lt_iff.mp hlog
  have hunit : floorLog num den - 52 ≤ unit num den := le_max_left _ _
  omega

/-- Below a power of two the numbers that it covers are in units half as great, and they round to
    the next power of two. -/
theorem scaled_of_covers_below (hx : x.Canonical) (hnum : 0 < num) (hden : 0 < den)
    (h : x.Covers ((num : ℚ) / den)) (hlt : unit num den < x.exponent) :
    unit num den = x.exponent - 1 ∧ x.significand = hiddenBit ∧
      scaled num den (unit num den) = 2 * hiddenBit := by
  have hmin : minExponent < x.exponent := lt_of_le_of_lt (le_max_right _ _) hlt
  have hbelow := lt_of_unit_lt hnum hden hlt
  have hm := significand_of_below hx hmin h hbelow
  have hlow := low_of_significand hmin hm h
  have hself := unit_of_low hnum hden hlt hlow
  refine ⟨hself, hm, ?_⟩
  have hhalf : (2 : ℚ) ^ x.exponent = 2 * 2 ^ unit num den := by
    rw [hself, ← zpow_one_add₀ (by norm_num)]
    congr 1
    omega
  have hpos := two_zpow_pos (unit num den)
  rw [hhalf] at hlow hbelow
  have hlow' : (2 * 4503599627370496 - 1 / 2 : ℚ) ≤ (num : ℚ) / den / 2 ^ unit num den := by
    rw [le_div_iff₀ hpos]
    linarith
  have hhigh' : (num : ℚ) / den / 2 ^ unit num den < 2 * 4503599627370496 := by
    rw [div_lt_iff₀ hpos]
    norm_num at hbelow
    linarith
  refine scaled_eq hden _ ?_ ?_ fun _ => by decide
  · rw [hiddenBit_eq]
    push_cast
    linarith
  · rw [hiddenBit_eq]
    push_cast
    linarith

end Below

/-- **A number that a canonical double covers rounds to it.** -/
theorem ofRatio?_of_covers {x : Binary64} (hx : x.Canonical) {num den : Nat} (hnum : 0 < num)
    (hden : 0 < den) (h : x.Covers ((num : ℚ) / den)) :
    ofRatio? x.negative num den = some x := by
  rw [ofRatio?_eq _ hnum]
  rcases lt_or_eq_of_le (unit_le_of_covers hx hnum hden h) with hlt | heq
  · obtain ⟨hunit, hm, hscaled⟩ := scaled_of_covers_below hx hnum hden h hlt
    rw [hscaled, fit?, if_pos rfl, hunit, sub_add_cancel]
    simp only [not_lt.mpr hx.high, ↓reduceIte]
    rw [← hm]
  · have hne : x.significand ≠ 2 * hiddenBit := hx.bound.ne
    rw [heq, scaled_of_covers hden h, fit?, if_neg hne]
    simp only [not_lt.mpr hx.high, ↓reduceIte]

/-! ## 4. What a number rounds to -/

theorem canonical_zero (negative : Bool) : Canonical ⟨negative, 0, minExponent⟩ :=
  ⟨show 0 < 2 * hiddenBit by decide, le_refl minExponent,
    show minExponent ≤ maxExponent by decide, fun h => absurd h (lt_irrefl minExponent)⟩

/-- A significand of at most 53 bits, or the next power of two, makes a canonical double. -/
theorem canonical_of_fit? {negative : Bool} {m : Nat} {q : Int} {x : Binary64}
    (hbound : m ≤ 2 * hiddenBit) (hlow : minExponent ≤ q)
    (hfull : minExponent < q → hiddenBit ≤ m) (h : fit? negative m q = some x) :
    x.Canonical ∧ x.negative = negative ∧ x.magnitude = m * 2 ^ q := by
  unfold fit? at h
  by_cases hm : m = 2 * hiddenBit
  · simp only [hm, ↓reduceIte] at h
    split at h
    · cases h
    · rename_i hhigh
      cases h
      have hsmall : hiddenBit < 2 * hiddenBit := by decide
      have hlow' : minExponent ≤ q + 1 := by omega
      refine ⟨⟨hsmall, hlow', not_lt.mp hhigh, fun _ => le_refl hiddenBit⟩, rfl, ?_⟩
      have htwo : (2 : ℚ) ^ (q + 1) = 2 * 2 ^ q := by
        rw [zpow_add_one₀ (by norm_num), mul_comm]
      rw [magnitude, hm, htwo]
      push_cast
      ring
  · simp only [hm, ↓reduceIte] at h
    split at h
    · cases h
    · rename_i hhigh
      cases h
      exact ⟨⟨Nat.lt_of_le_of_ne hbound hm, hlow, not_lt.mp hhigh, hfull⟩, rfl, rfl⟩

/-- The significand has at most 53 bits, or is the next power of two. -/
theorem scaled_bounds {num den : Nat} (hnum : 0 < num) (hden : 0 < den) :
    scaled num den (unit num den) ≤ 2 * hiddenBit ∧
      (minExponent < unit num den → hiddenBit ≤ scaled num den (unit num den)) := by
  obtain ⟨hlog, hlog'⟩ := floorLog_spec hnum hden
  have hscaled : |(scaled num den (unit num den) : ℚ) - num / den / 2 ^ unit num den| ≤ 1 / 2 :=
    scaled_near hden (unit num den)
  obtain ⟨hnear, hnear'⟩ := abs_le.mp hscaled
  have hpos := two_zpow_pos (unit num den)
  constructor
  · have hhigh : (num : ℚ) / den / 2 ^ unit num den < 2 ^ (53 : Int) := by
      rw [div_lt_iff₀ hpos, ← zpow_add₀ (by norm_num)]
      refine lt_of_lt_of_le hlog' (zpow_le_zpow_right₀ (by norm_num) ?_)
      have : floorLog num den - 52 ≤ unit num den := le_max_left _ _
      omega
    norm_num at hhigh
    have hlt : (scaled num den (unit num den) : ℚ) < 9007199254740993 := by linarith
    have hlt' : scaled num den (unit num den) < 9007199254740993 := by exact_mod_cast hlt
    exact Nat.lt_succ_iff.mp hlt'
  · intro hmin
    have hunit : unit num den = floorLog num den - 52 := by
      unfold unit at hmin ⊢
      omega
    have hlow : (2 : ℚ) ^ (52 : Int) ≤ (num : ℚ) / den / 2 ^ unit num den := by
      rw [le_div_iff₀ hpos, ← zpow_add₀ (by norm_num)]
      refine le_trans (zpow_le_zpow_right₀ (by norm_num) ?_) hlog
      omega
    norm_num at hlow
    have hlt : (4503599627370495 : ℚ) < scaled num den (unit num den) := by linarith
    have hlt' : 4503599627370495 < scaled num den (unit num den) := by exact_mod_cast hlt
    exact hlt'

theorem spec_of_ofRatio? {negative : Bool} {num den : Nat} {x : Binary64} (hnum : 0 < num)
    (hden : 0 < den) (h : ofRatio? negative num den = some x) :
    x.Canonical ∧ x.negative = negative ∧
      x.magnitude = scaled num den (unit num den) * 2 ^ unit num den := by
  rw [ofRatio?_eq _ hnum] at h
  obtain ⟨hbound, hfull⟩ := scaled_bounds hnum hden
  exact canonical_of_fit? hbound (le_max_right _ _) hfull h

/-- What a number rounds to is canonical and has its sign. -/
theorem canonical_of_ofRatio? {negative : Bool} {num den : Nat} {x : Binary64} (hden : 0 < den)
    (h : ofRatio? negative num den = some x) : x.Canonical ∧ x.negative = negative := by
  by_cases hnum : num = 0
  · rw [ofRatio?, if_pos hnum] at h
    cases h
    exact ⟨canonical_zero negative, rfl⟩
  · obtain ⟨hx, hsign, -⟩ := spec_of_ofRatio? (Nat.pos_of_ne_zero hnum) hden h
    exact ⟨hx, hsign⟩

/-- What a number that is at least one rounds to is less than twice as great or as small. -/
theorem near_of_ofRatio? {negative : Bool} {num den : Nat} {x : Binary64} (hnum : 0 < num)
    (hden : 0 < den) (hone : 1 ≤ (num : ℚ) / den) (h : ofRatio? negative num den = some x) :
    (num : ℚ) / den / 2 ≤ x.magnitude ∧ x.magnitude ≤ 2 * ((num : ℚ) / den) := by
  obtain ⟨-, -, hvalue⟩ := spec_of_ofRatio? hnum hden h
  obtain ⟨hlog, hlog'⟩ := floorLog_spec hnum hden
  have hscaled : |(scaled num den (unit num den) : ℚ) - num / den / 2 ^ unit num den| ≤ 1 / 2 :=
    scaled_near hden (unit num den)
  obtain ⟨hnear, hnear'⟩ := abs_le.mp hscaled
  have hpos := two_zpow_pos (unit num den)
  have hunit : (2 : ℚ) ^ unit num den ≤ (num : ℚ) / den := by
    have hzero : 0 < floorLog num den + 1 := by
      have : (2 : ℚ) ^ (0 : Int) < 2 ^ (floorLog num den + 1) := by
        rw [zpow_zero]
        exact lt_of_le_of_lt hone hlog'
      exact two_zpow_lt_iff.mp this
    refine le_trans (zpow_le_zpow_right₀ (by norm_num) ?_) hlog
    unfold unit minExponent
    omega
  have hcancel : (num : ℚ) / den / 2 ^ unit num den * 2 ^ unit num den = (num : ℚ) / den :=
    div_mul_cancel₀ _ hpos.ne'
  rw [hvalue]
  constructor
  · nlinarith
  · nlinarith

theorem magnitude_bounds_of_covers {x : Binary64} (hx : x.Canonical) (hpos : 0 < x.significand)
    {v : ℚ} (h : x.Covers v) : (10 : ℚ) ^ (-400 : Int) < v ∧ v < 10 ^ (400 : Int) := by
  have hone : (1 : ℚ) ≤ x.significand := by exact_mod_cast hpos
  have hgap := x.gap_le
  constructor
  · have hsmall : (2 * 2 ^ 1074 : ℚ) < 10 ^ 400 := by
      exact_mod_cast (show 2 * 2 ^ 1074 < 10 ^ 400 by decide +kernel)
    have hmin : (1 / 2 : ℚ) * 2 ^ minExponent = (2 * 2 ^ 1074)⁻¹ := by
      rw [mul_inv, one_div]
      rfl
    calc (10 : ℚ) ^ (-400 : Int) = (10 ^ 400)⁻¹ := rfl
      _ < (2 * 2 ^ 1074)⁻¹ := inv_strictAnti₀ (by positivity) hsmall
      _ = 1 / 2 * 2 ^ minExponent := hmin.symm
      _ ≤ 1 / 2 * 2 ^ x.exponent := by
        gcongr
        · norm_num
        · exact hx.low
      _ ≤ (x.significand - x.gap) * 2 ^ x.exponent := by
        gcongr
        linarith
      _ ≤ v := h.low
  · have hbound : (x.significand : ℚ) + 1 ≤ 2 * 4503599627370496 := by exact_mod_cast hx.bound
    have hgreat : (9007199254740992 * 2 ^ 971 : ℚ) < 10 ^ 400 := by
      exact_mod_cast (show 9007199254740992 * 2 ^ 971 < 10 ^ 400 by decide +kernel)
    calc v ≤ (x.significand + 1 / 2) * 2 ^ x.exponent := h.high
      _ ≤ 9007199254740992 * 2 ^ x.exponent := by
        gcongr
        linarith
      _ ≤ 9007199254740992 * 2 ^ maxExponent := by
        gcongr
        · norm_num
        · exact hx.high
      _ < 10 ^ (400 : Int) := hgreat

end Binary64

/-! ## 5. Decimals -/

namespace Numeral

open Binary64

theorem ratio_powTen (digits : Nat) (scale : Int) :
    ((digits * (powTen scale).1 : Nat) : ℚ) / ((powTen scale).2 : Nat) = digits * 10 ^ scale := by
  rw [← powTen_eq]
  push_cast
  ring

/-- The sizes of digits, in the powers of ten that bound them. -/
theorem size_bounds {digits : Nat} (h : 0 < digits) :
    (10 : ℚ) ^ ((digits.log2 : Int) / 4) ≤ digits ∧
      (digits : ℚ) < 10 ^ (2 * ((digits.log2 : Int) / 4) + 2) := by
  obtain ⟨hlow, hhigh⟩ := log2_spec h
  have hsixteen : ∀ k : Int, (2 : ℚ) ^ (4 * k) = 16 ^ k := fun k => by
    rw [zpow_mul]
    norm_num
  have hhundred : ∀ k : Int, (10 : ℚ) ^ (2 * k) = 100 ^ k := fun k => by
    rw [zpow_mul]
    norm_num
  constructor
  · calc (10 : ℚ) ^ ((digits.log2 : Int) / 4) ≤ 16 ^ ((digits.log2 : Int) / 4) :=
          zpow_le_zpow_left₀ (by omega) (by norm_num) (by norm_num)
      _ = 2 ^ (4 * ((digits.log2 : Int) / 4)) := (hsixteen _).symm
      _ ≤ 2 ^ (digits.log2 : Int) := zpow_le_zpow_right₀ (by norm_num) (by omega)
      _ ≤ digits := hlow
  · calc (digits : ℚ) < 2 ^ ((digits.log2 : Int) + 1) := hhigh
      _ ≤ 2 ^ (4 * ((digits.log2 : Int) / 4 + 1)) := zpow_le_zpow_right₀ (by norm_num) (by omega)
      _ = 16 ^ ((digits.log2 : Int) / 4 + 1) := hsixteen _
      _ ≤ 100 ^ ((digits.log2 : Int) / 4 + 1) :=
          zpow_le_zpow_left₀ (by omega) (by norm_num) (by norm_num)
      _ = 10 ^ (2 * ((digits.log2 : Int) / 4 + 1)) := (hhundred _).symm
      _ = 10 ^ (2 * ((digits.log2 : Int) / 4) + 2) := by
          rw [mul_add, mul_one]

/-- Decimals neither too great nor too small are rounded as quotients. -/
theorem nearest?_eq (negative : Bool) {digits : Nat} (h : 0 < digits) {scale : Int}
    (hlow : (10 : ℚ) ^ (-400 : Int) < digits * 10 ^ scale)
    (hhigh : (digits : ℚ) * 10 ^ scale < 10 ^ (400 : Int)) :
    nearest? negative digits scale =
      ofRatio? negative (digits * (powTen scale).1) (powTen scale).2 := by
  obtain ⟨hsize, hsize'⟩ := size_bounds h
  have hpos := ten_zpow_pos scale
  have hlt : (10 : ℚ) ^ (-400 : Int) < 10 ^ (2 * ((digits.log2 : Int) / 4) + 2 + scale) := by
    rw [zpow_add₀ (by norm_num)]
    exact lt_trans hlow (mul_lt_mul_of_pos_right hsize' hpos)
  have hgt : (10 : ℚ) ^ ((digits.log2 : Int) / 4 + scale) < 10 ^ (400 : Int) := by
    rw [zpow_add₀ (by norm_num)]
    exact lt_of_le_of_lt (mul_le_mul_of_nonneg_right hsize hpos.le) hhigh
  have hexp := (zpow_lt_zpow_iff_right₀ (by norm_num)).mp hlt
  have hexp' := (zpow_lt_zpow_iff_right₀ (by norm_num)).mp hgt
  have htiny : ¬(digits = 0 || scale + 2 * ((digits.log2 : Int) / 4) < -(2 * powerBound)) := by
    rw [Bool.or_eq_true, decide_eq_true_eq, decide_eq_true_eq, powerBound]
    omega
  have hhuge : ¬powerBound < scale + (digits.log2 : Int) / 4 := by
    rw [powerBound]
    omega
  unfold nearest?
  simp only
  rw [if_neg htiny, if_neg hhuge]

/-- **A decimal that a canonical double covers is read as the double.** -/
theorem nearest?_of_covers {x : Binary64} (hx : x.Canonical) (hpos : 0 < x.significand)
    {digits : Nat} (h : 0 < digits) {scale : Int} (hcovers : x.Covers (digits * 10 ^ scale)) :
    nearest? x.negative digits scale = some x := by
  obtain ⟨hlow, hhigh⟩ := magnitude_bounds_of_covers hx hpos hcovers
  rw [nearest?_eq _ h hlow hhigh]
  rw [← ratio_powTen] at hcovers
  exact ofRatio?_of_covers hx (Nat.mul_pos h (powTen_pos scale).1) (powTen_pos scale).2 hcovers

/-- What a decimal is read as is canonical and has its sign. -/
theorem canonical_of_nearest? {negative : Bool} {digits : Nat} {scale : Int} {x : Binary64}
    (h : nearest? negative digits scale = some x) : x.Canonical ∧ x.negative = negative := by
  unfold nearest? at h
  simp only at h
  split at h
  · exact canonical_of_ofRatio? (by decide) h
  split at h
  · cases h
  · exact canonical_of_ofRatio? (powTen_pos scale).2 h

end Numeral

end FieldSelection
