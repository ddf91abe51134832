import FieldSelection.Number.Shortest
import Mathlib.Algebra.Order.Field.Power
import Mathlib.Algebra.Order.Field.Rat
import Mathlib.Tactic.FieldSimp
import Mathlib.Tactic.GCongr
import Mathlib.Tactic.Linarith
import Mathlib.Tactic.NormNum
import Mathlib.Tactic.Positivity
import Mathlib.Tactic.Ring

/-!
# Quotients, powers and rounding

The exact arithmetic of doubles, stated on rational numbers:

* quotients of naturals stand for powers of two and ten (`powTwo_eq`, `powTen_eq`);
* `floorLog` is the exponent of the binade of a quotient (`floorLog_spec`);
* `roundDiv` is the one integer that is nearer than a half, or as near and even (`roundDiv_eq`).
-/

namespace FieldSelection

/-! ## 1. Rounding a quotient -/

theorem roundDiv_eq_of_mul {num den m : Nat} (hden : 0 < den) (hlow : 2 * m * den ≤ 2 * num + den)
    (hhigh : 2 * num ≤ 2 * m * den + den)
    (heven : 2 * m * den = 2 * num + den ∨ 2 * num = 2 * m * den + den → m % 2 = 0) :
    roundDiv num den = m := by
  have hdiv : num / den * den + num % den = num := Nat.div_add_mod' num den
  have hmod := Nat.mod_lt num hden
  generalize hq : num / den = q at hdiv
  generalize hr : num % den = r at hdiv hmod
  have hle : q ≤ m := by
    by_contra h
    have : (m + 1) * den ≤ q * den := Nat.mul_le_mul_right den (by omega)
    have : (m + 1) * den = m * den + den := Nat.succ_mul m den
    have : 2 * m * den = 2 * (m * den) := Nat.mul_assoc 2 m den
    omega
  have hle' : m ≤ q + 1 := by
    by_contra h
    have : (q + 2) * den ≤ m * den := Nat.mul_le_mul_right den (by omega)
    have : (q + 2) * den = q * den + 2 * den := Nat.add_mul q 2 den
    have : 2 * m * den = 2 * (m * den) := Nat.mul_assoc 2 m den
    omega
  unfold roundDiv
  simp only [hq, hr]
  obtain rfl | rfl : m = q ∨ m = q + 1 := by omega
  · have hm : 2 * m * den = 2 * (m * den) := Nat.mul_assoc 2 m den
    rw [hm] at hlow hhigh heven
    split
    · rfl
    split
    · rw [heven (Or.inr (by omega)), Nat.add_zero]
    · omega
  · have hm : 2 * (q + 1) * den = 2 * (q * den) + 2 * den := by ring
    rw [hm] at hlow hhigh heven
    split
    · omega
    split
    · have := heven (Or.inl (by omega))
      omega
    · rfl

/-- A rounded quotient is at most a half away. -/
theorem abs_roundDiv_sub_le (num : Nat) {den : Nat} (hden : 0 < den) :
    |(roundDiv num den : ℚ) - (num : ℚ) / den| ≤ 1 / 2 := by
  obtain ⟨hlow, hhigh⟩ := two_mul_roundDiv num den hden
  have hdenQ : (0 : ℚ) < den := by exact_mod_cast hden
  have hlowQ : 2 * (num : ℚ) ≤ 2 * (roundDiv num den * den) + den := by exact_mod_cast hlow
  have hhighQ : 2 * (roundDiv num den * den : ℚ) ≤ 2 * num + den := by exact_mod_cast hhigh
  have hcancel : (num : ℚ) / den * den = num := div_mul_cancel₀ _ hdenQ.ne'
  rw [abs_le]
  constructor
  · nlinarith
  · nlinarith

/-- The integer that is nearer than a half, or as near and even, is the rounded quotient. -/
theorem roundDiv_eq {num den m : Nat} (hden : 0 < den) (hlow : (m : ℚ) - 1 / 2 ≤ (num : ℚ) / den)
    (hhigh : (num : ℚ) / den ≤ m + 1 / 2)
    (heven : (num : ℚ) / den = m - 1 / 2 ∨ (num : ℚ) / den = m + 1 / 2 → m % 2 = 0) :
    roundDiv num den = m := by
  have hdenQ : (0 : ℚ) < den := by exact_mod_cast hden
  rw [le_div_iff₀ hdenQ] at hlow
  rw [div_le_iff₀ hdenQ] at hhigh
  refine roundDiv_eq_of_mul hden ?_ ?_ ?_
  · have : (2 * m * den : ℚ) ≤ 2 * num + den := by linarith
    exact_mod_cast this
  · have : (2 * num : ℚ) ≤ 2 * m * den + den := by linarith
    exact_mod_cast this
  · intro h
    refine heven (h.imp (fun h => ?_) fun h => ?_)
    · have : (2 * m * den : ℚ) = 2 * num + den := by exact_mod_cast h
      rw [div_eq_iff hdenQ.ne']
      linarith
    · have : (2 * num : ℚ) = 2 * m * den + den := by exact_mod_cast h
      rw [div_eq_iff hdenQ.ne']
      linarith

namespace Binary64

/-! ## 2. Quotients and powers -/

theorem ratio_lt_iff {a b c d : Nat} (hb : 0 < b) (hd : 0 < d) :
    (a : ℚ) / b < (c : ℚ) / d ↔ a * d < b * c := by
  have hb' : (0 : ℚ) < b := by exact_mod_cast hb
  have hd' : (0 : ℚ) < d := by exact_mod_cast hd
  rw [div_lt_div_iff₀ hb' hd', mul_comm (c : ℚ)]
  exact_mod_cast Iff.rfl

theorem ratio_le_iff {a b c d : Nat} (hb : 0 < b) (hd : 0 < d) :
    (a : ℚ) / b ≤ (c : ℚ) / d ↔ a * d ≤ b * c := by
  have hb' : (0 : ℚ) < b := by exact_mod_cast hb
  have hd' : (0 : ℚ) < d := by exact_mod_cast hd
  rw [div_le_div_iff₀ hb' hd', mul_comm (c : ℚ)]
  exact_mod_cast Iff.rfl

theorem two_zpow_pos (e : Int) : (0 : ℚ) < 2 ^ e := zpow_pos (by norm_num) e

theorem ten_zpow_pos (e : Int) : (0 : ℚ) < 10 ^ e := zpow_pos (by norm_num) e

/-- A power as a quotient of naturals. -/
theorem zpow_eq_div (b : Nat) (hb : 0 < b) (e : Int) :
    ((b ^ e.toNat : Nat) : ℚ) / ((b ^ (-e).toNat : Nat) : ℚ) = (b : ℚ) ^ e := by
  have hne : (b : ℚ) ≠ 0 := by positivity
  push_cast
  rw [← zpow_natCast, ← zpow_natCast, ← zpow_sub₀ hne]
  congr 1
  omega

theorem powTwo_eq (e : Int) : ((powTwo e).1 : ℚ) / (powTwo e).2 = 2 ^ e :=
  zpow_eq_div 2 (by decide) e

theorem powTen_eq (e : Int) : ((powTen e).1 : ℚ) / (powTen e).2 = 10 ^ e :=
  zpow_eq_div 10 (by decide) e

theorem powTwo_pos (e : Int) : 0 < (powTwo e).1 ∧ 0 < (powTwo e).2 :=
  ⟨Nat.pow_pos (by decide), Nat.pow_pos (by decide)⟩

theorem powTen_pos (e : Int) : 0 < (powTen e).1 ∧ 0 < (powTen e).2 :=
  ⟨Nat.pow_pos (by decide), Nat.pow_pos (by decide)⟩

theorem ratio_lt_two_zpow_iff (num : Nat) {den : Nat} (hden : 0 < den) (e : Int) :
    (num : ℚ) / den < 2 ^ e ↔ num * (powTwo e).2 < den * (powTwo e).1 := by
  rw [← powTwo_eq, ratio_lt_iff hden (powTwo_pos e).2]

theorem ten_zpow_le_ratio_iff (num : Nat) {den : Nat} (hden : 0 < den) (e : Int) :
    (10 : ℚ) ^ e ≤ (num : ℚ) / den ↔ den * (powTen e).1 ≤ num * (powTen e).2 := by
  rw [← powTen_eq, ratio_le_iff (powTen_pos e).2 hden, Nat.mul_comm, Nat.mul_comm num]

/-! ## 3. Binades -/

theorem log2_spec {n : Nat} (h : 0 < n) :
    (2 : ℚ) ^ (n.log2 : Int) ≤ n ∧ (n : ℚ) < 2 ^ ((n.log2 : Int) + 1) := by
  constructor
  · rw [zpow_natCast]
    exact_mod_cast Nat.log2_self_le h.ne'
  · rw [← Nat.cast_add_one, zpow_natCast]
    exact_mod_cast Nat.lt_log2_self

/-- The exponent of the binade that a quotient stands in. -/
theorem floorLog_spec {num den : Nat} (hnum : 0 < num) (hden : 0 < den) :
    (2 : ℚ) ^ floorLog num den ≤ (num : ℚ) / den ∧
      (num : ℚ) / den < 2 ^ (floorLog num den + 1) := by
  obtain ⟨hnumLow, hnumHigh⟩ := log2_spec hnum
  obtain ⟨hdenLow, hdenHigh⟩ := log2_spec hden
  have hdenQ : (0 : ℚ) < den := by exact_mod_cast hden
  have hlow : (2 : ℚ) ^ ((num.log2 : Int) - den.log2 - 1) ≤ (num : ℚ) / den := by
    rw [le_div_iff₀ hdenQ]
    calc (2 : ℚ) ^ ((num.log2 : Int) - den.log2 - 1) * den
        ≤ 2 ^ ((num.log2 : Int) - den.log2 - 1) * 2 ^ ((den.log2 : Int) + 1) := by gcongr
      _ = 2 ^ (num.log2 : Int) := by
        rw [← zpow_add₀ (by norm_num)]
        congr 1
        ring
      _ ≤ num := hnumLow
  have hhigh : (num : ℚ) / den < 2 ^ ((num.log2 : Int) - den.log2 + 1) := by
    rw [div_lt_iff₀ hdenQ]
    calc (num : ℚ) < 2 ^ ((num.log2 : Int) + 1) := hnumHigh
      _ = 2 ^ ((num.log2 : Int) - den.log2 + 1) * 2 ^ (den.log2 : Int) := by
        rw [← zpow_add₀ (by norm_num)]
        congr 1
        ring
      _ ≤ 2 ^ ((num.log2 : Int) - den.log2 + 1) * den := by gcongr
  have htest := ratio_lt_two_zpow_iff num hden ((num.log2 : Int) - den.log2)
  unfold floorLog
  simp only
  split
  · rename_i h
    rw [sub_add_cancel]
    exact ⟨hlow, htest.mpr h⟩
  · rename_i h
    exact ⟨not_lt.mp (mt htest.mp h), hhigh⟩

end Binary64

end FieldSelection
