import FieldSelection.Proofs.Number.Nearest

/-!
# The shortest digits round to the double

* A point that a grid finds is one that the double covers (`covers_of_onGrid`).
* A grid finds a point if its steps are less than twice as wide as the double reaches downwards
  (`isSome_onGrid`). Seventeen digits are enough for that, since the power of ten that the search
  starts from is not greater than the double (`ten_zpow_top_le`).
* So the double covers its shortest digits, and they are not zero (`covers_shortest`,
  `digits_shortest_pos`).
-/

namespace FieldSelection.Binary64

variable {x : Binary64}

/-! ## 1. The interval -/

/-- The numerators of the interval, over their denominator. -/
theorem roundingInterval_spec (hpos : 0 < x.significand) :
    0 < x.roundingInterval.2.2.2 ∧
      (x.roundingInterval.1 : ℚ) / x.roundingInterval.2.2.2 =
        (x.significand - x.gap) * 2 ^ x.exponent ∧
      (x.roundingInterval.2.1 : ℚ) / x.roundingInterval.2.2.2 = x.magnitude ∧
      (x.roundingInterval.2.2.1 : ℚ) / x.roundingInterval.2.2.2 =
        (x.significand + 1 / 2) * 2 ^ x.exponent := by
  have hunit : ((powTwo (x.exponent - 2)).1 : ℚ) / (powTwo (x.exponent - 2)).2 =
      2 ^ x.exponent / 4 := by
    rw [powTwo_eq, zpow_sub₀ (by norm_num)]
    norm_num
  have hgap : ((4 * x.significand -
      if x.significand = hiddenBit && minExponent < x.exponent then 1 else 2 : Nat) : ℚ) =
        4 * (x.significand - x.gap) := by
    unfold gap
    by_cases h : x.significand = hiddenBit ∧ minExponent < x.exponent
    · have h' : (x.significand = hiddenBit && minExponent < x.exponent) = true := by simpa using h
      rw [if_pos h, if_pos h', Nat.cast_sub (by omega)]
      push_cast
      ring
    · have h' : ¬(x.significand = hiddenBit && minExponent < x.exponent) = true := by
        simpa using h
      rw [if_neg h, if_neg h', Nat.cast_sub (by omega)]
      push_cast
      ring
  refine ⟨(powTwo_pos _).2, ?_, ?_, ?_⟩
  · unfold roundingInterval
    simp only
    rw [Nat.cast_mul, mul_div_assoc, hunit, hgap]
    ring
  · unfold roundingInterval magnitude
    simp only
    rw [Nat.cast_mul, mul_div_assoc, hunit]
    push_cast
    ring
  · unfold roundingInterval
    simp only
    rw [Nat.cast_mul, mul_div_assoc, hunit]
    push_cast
    ring

/-! ## 2. Points of a grid -/

/-- Whether the search takes a point for one in the interval. -/
def inside (x : Binary64) (scale : Int) (n : Nat) : Bool :=
  let (low, _, high, den) := x.roundingInterval
  let (up, down) := powTen scale
  if x.significand % 2 == 0 then
    decide (low * down ≤ n * (den * up) ∧ n * (den * up) ≤ high * down)
  else decide (low * down < n * (den * up) ∧ n * (den * up) < high * down)

/-- The point of a grid that is nearest to the double. -/
def nearer (x : Binary64) (scale : Int) : Nat :=
  roundDiv (x.roundingInterval.2.1 * (powTen scale).2)
    (x.roundingInterval.2.2.2 * (powTen scale).1)

theorem onGrid_eq (scale : Int) : ∃ farther,
    x.onGrid scale =
      if x.inside scale (x.nearer scale) then some (x.nearer scale)
      else if x.inside scale farther then some farther else none :=
  ⟨_, rfl⟩

/-- The ends of the interval and the points of the grid over one denominator. -/
theorem exists_denominator (hpos : 0 < x.significand) (scale : Int) : ∃ k : ℚ, 0 < k ∧
    (x.significand - x.gap) * 2 ^ x.exponent * k =
      (x.roundingInterval.1 * (powTen scale).2 : Nat) ∧
    (x.significand + 1 / 2) * 2 ^ x.exponent * k =
      (x.roundingInterval.2.2.1 * (powTen scale).2 : Nat) ∧
    ∀ n : Nat, n * 10 ^ scale * k = (n * (x.roundingInterval.2.2.2 * (powTen scale).1) : Nat) := by
  obtain ⟨hden, hlow, -, hhigh⟩ := roundingInterval_spec hpos
  have hdenQ : (0 : ℚ) < x.roundingInterval.2.2.2 := by exact_mod_cast hden
  have hdown : (0 : ℚ) < (powTen scale).2 := by exact_mod_cast (powTen_pos scale).2
  refine ⟨x.roundingInterval.2.2.2 * (powTen scale).2, mul_pos hdenQ hdown, ?_, ?_, fun n => ?_⟩
  · rw [← hlow]
    push_cast
    field_simp
  · rw [← hhigh]
    push_cast
    field_simp
  · rw [← powTen_eq]
    push_cast
    field_simp

/-- A point that the search takes for one in the interval is covered. -/
theorem covers_of_inside (hpos : 0 < x.significand) {scale : Int} {n : Nat}
    (h : x.inside scale n = true) : x.Covers (n * 10 ^ scale) := by
  obtain ⟨k, hk, hlow, hhigh, hpoint⟩ := exists_denominator hpos scale
  unfold inside at h
  simp only at h
  split at h
  · rename_i heven
    rw [decide_eq_true_eq] at h
    refine ⟨?_, ?_, fun _ => by simpa using heven⟩
    · rw [← mul_le_mul_iff_left₀ hk, hlow, hpoint]
      exact_mod_cast h.1
    · rw [← mul_le_mul_iff_left₀ hk, hhigh, hpoint]
      exact_mod_cast h.2
  · rw [decide_eq_true_eq] at h
    have hlt : (x.significand - x.gap) * 2 ^ x.exponent < n * (10 : ℚ) ^ scale := by
      rw [← mul_lt_mul_iff_left₀ hk, hlow, hpoint]
      exact_mod_cast h.1
    have hgt : n * (10 : ℚ) ^ scale < (x.significand + 1 / 2) * 2 ^ x.exponent := by
      rw [← mul_lt_mul_iff_left₀ hk, hhigh, hpoint]
      exact_mod_cast h.2
    exact ⟨hlt.le, hgt.le, fun hend => absurd hend (not_or.mpr ⟨hlt.ne', hgt.ne⟩)⟩

/-- A point that lies between the ends is taken for one in the interval. -/
theorem inside_of_lt (hpos : 0 < x.significand) {scale : Int} {n : Nat}
    (hlow : (x.significand - x.gap) * 2 ^ x.exponent < n * (10 : ℚ) ^ scale)
    (hhigh : n * (10 : ℚ) ^ scale < (x.significand + 1 / 2) * 2 ^ x.exponent) :
    x.inside scale n = true := by
  obtain ⟨k, hk, hlow', hhigh', hpoint⟩ := exists_denominator hpos scale
  rw [← mul_lt_mul_iff_left₀ hk, hlow', hpoint] at hlow
  rw [← mul_lt_mul_iff_left₀ hk, hhigh', hpoint] at hhigh
  have hlt : x.roundingInterval.1 * (powTen scale).2 <
      n * (x.roundingInterval.2.2.2 * (powTen scale).1) := by exact_mod_cast hlow
  have hgt : n * (x.roundingInterval.2.2.2 * (powTen scale).1) <
      x.roundingInterval.2.2.1 * (powTen scale).2 := by exact_mod_cast hhigh
  unfold inside
  simp only
  split
  · exact decide_eq_true ⟨hlt.le, hgt.le⟩
  · exact decide_eq_true ⟨hlt, hgt⟩

/-- A point that a grid finds is covered. -/
theorem covers_of_onGrid (hpos : 0 < x.significand) {scale : Int} {n : Nat}
    (h : x.onGrid scale = some n) : x.Covers (n * 10 ^ scale) := by
  obtain ⟨farther, hgrid⟩ := x.onGrid_eq scale
  rw [hgrid] at h
  split at h
  · rename_i hinside
    cases h
    exact covers_of_inside hpos hinside
  split at h
  · rename_i hinside
    cases h
    exact covers_of_inside hpos hinside
  · cases h

/-- The point of a grid that is nearest to the double is at most half a step away. -/
theorem nearer_near (hpos : 0 < x.significand) (scale : Int) :
    |(x.nearer scale : ℚ) * 10 ^ scale - x.magnitude| ≤ 10 ^ scale / 2 := by
  obtain ⟨hden, -, hmid, -⟩ := roundingInterval_spec hpos
  have hten := ten_zpow_pos scale
  have hdenQ : (x.roundingInterval.2.2.2 : ℚ) ≠ 0 := by exact_mod_cast hden.ne'
  have hup : ((powTen scale).1 : ℚ) ≠ 0 := by exact_mod_cast (powTen_pos scale).1.ne'
  have hdown : ((powTen scale).2 : ℚ) ≠ 0 := by exact_mod_cast (powTen_pos scale).2.ne'
  have hratio : ((x.roundingInterval.2.1 * (powTen scale).2 : Nat) : ℚ) /
      (x.roundingInterval.2.2.2 * (powTen scale).1 : Nat) = x.magnitude / 10 ^ scale := by
    rw [← hmid, ← powTen_eq]
    push_cast
    field_simp
  have hnear := abs_roundDiv_sub_le (x.roundingInterval.2.1 * (powTen scale).2)
    (Nat.mul_pos hden (powTen_pos scale).1)
  rw [hratio] at hnear
  have hsplit : (x.nearer scale : ℚ) * 10 ^ scale - x.magnitude =
      (x.nearer scale - x.magnitude / 10 ^ scale) * 10 ^ scale := by
    field_simp
  rw [hsplit, abs_mul, abs_of_pos hten]
  calc |(x.nearer scale : ℚ) - x.magnitude / 10 ^ scale| * 10 ^ scale
      ≤ 1 / 2 * 10 ^ scale := mul_le_mul_of_nonneg_right hnear hten.le
    _ = 10 ^ scale / 2 := by ring

/-- A grid finds a point if half a step is less than the double reaches downwards. -/
theorem isSome_onGrid (hpos : 0 < x.significand) {scale : Int}
    (h : (10 : ℚ) ^ scale / 2 < x.gap * 2 ^ x.exponent) : (x.onGrid scale).isSome = true := by
  obtain ⟨hlow, hhigh⟩ := abs_le.mp (nearer_near hpos scale)
  have hgap : x.gap * 2 ^ x.exponent ≤ 1 / 2 * 2 ^ x.exponent :=
    mul_le_mul_of_nonneg_right x.gap_le (two_zpow_pos _).le
  have hinside : x.inside scale (x.nearer scale) = true := by
    unfold magnitude at hlow hhigh
    exact inside_of_lt hpos (by linarith) (by linarith)
  obtain ⟨farther, hgrid⟩ := x.onGrid_eq scale
  rw [hgrid, if_pos hinside]
  rfl

/-! ## 3. The search -/

theorem onGrid_of_searchGrids {top : Int} {d : Decimal} : ∀ {fuel n : Nat},
    x.searchGrids top fuel n = some d → x.onGrid d.scale = some d.digits
  | 0, _, h => by cases h
  | fuel + 1, n, h => by
      rw [searchGrids] at h
      split at h
      · rename_i hgrid
        cases h
        exact hgrid
      · exact onGrid_of_searchGrids h

theorem isSome_searchGrids {top : Int} : ∀ {fuel n : Nat} (k : Nat), k < fuel →
    (x.onGrid (top - (n + k : Nat) + 1)).isSome = true →
      (x.searchGrids top fuel n).isSome = true
  | 0, _, _, hk, _ => absurd hk (Nat.not_lt_zero _)
  | fuel + 1, n, k, hk, h => by
      rw [searchGrids]
      split
      · rfl
      · rename_i hgrid
        cases k with
        | zero =>
          rw [Nat.add_zero, hgrid] at h
          cases h
        | succ k =>
          rw [Nat.add_succ, ← Nat.succ_add] at h
          exact isSome_searchGrids k (Nat.lt_of_succ_lt_succ hk) h

/-- The search for a power of ten that is not too great ends with one, if it may go down far
    enough. -/
theorem ten_zpow_floorLogTen_le {num den : Nat} (hden : 0 < den) : ∀ {fuel : Nat} {e : Int},
    (10 : ℚ) ^ (e - fuel) ≤ (num : ℚ) / den →
      (10 : ℚ) ^ floorLogTen num den fuel e ≤ (num : ℚ) / den
  | 0, e, h => by
      rw [floorLogTen]
      simpa using h
  | fuel + 1, e, h => by
      unfold floorLogTen
      simp only
      split
      · rename_i htest
        exact (ten_zpow_le_ratio_iff num hden e).mpr htest
      · refine ten_zpow_floorLogTen_le hden ?_
        have hexp : e - 1 - (fuel : Int) = e - (fuel + 1 : Nat) := by
          push_cast
          ring
        rwa [hexp]

/-- The lowest power of ten that the search comes down to, at a binade of the doubles. -/
theorem powTen_guess_le : ∀ i : Nat, i < 2098 →
    (powTen (((i : Int) - 1074) * 30103 / 100000 + 1 - 3)).1 * (powTwo ((i : Int) - 1074)).2 ≤
      (powTen (((i : Int) - 1074) * 30103 / 100000 + 1 - 3)).2 * (powTwo ((i : Int) - 1074)).1 := by
  decide +kernel

theorem ten_zpow_guess_le {e : Int} (hlow : -1074 ≤ e) (hhigh : e < 1024) :
    (10 : ℚ) ^ (e * 30103 / 100000 + 1 - 3) ≤ 2 ^ e := by
  have h := powTen_guess_le (e + 1074).toNat (by omega)
  have he : (((e + 1074).toNat : Nat) : Int) - 1074 = e := by omega
  rw [he] at h
  rw [← powTen_eq, ← powTwo_eq, ratio_le_iff (powTen_pos _).2 (powTwo_pos _).2]
  exact h

/-- The exponent of the power of ten that the search starts from. -/
def top (x : Binary64) : Int :=
  floorLogTen x.roundingInterval.2.1 x.roundingInterval.2.2.2 3
    (floorLog x.roundingInterval.2.1 x.roundingInterval.2.2.2 * 30103 / 100000 + 1)

theorem shortest_eq (x : Binary64) : x.shortest = (x.searchGrids x.top 17 1).getD ⟨0, 0⟩ := rfl

/-- The search starts from a power of ten that is not greater than the double. -/
theorem ten_zpow_top_le (hx : x.Canonical) (hpos : 0 < x.significand) :
    (10 : ℚ) ^ x.top ≤ x.magnitude := by
  obtain ⟨hden, -, hmid, -⟩ := roundingInterval_spec hpos
  have hone : (1 : ℚ) ≤ x.significand := by exact_mod_cast hpos
  have hbound : (x.significand : ℚ) < 2 ^ (53 : Int) := by
    have : (x.significand : ℚ) < (2 * hiddenBit : Nat) := by exact_mod_cast hx.bound
    rw [hiddenBit_eq] at this
    norm_num at this ⊢
    exact this
  have hpow := two_zpow_pos x.exponent
  have hnum : 0 < x.roundingInterval.2.1 := by
    have hmag : 0 < x.magnitude := by
      unfold magnitude
      positivity
    rw [← hmid] at hmag
    by_contra hzero
    rw [Nat.eq_zero_of_not_pos hzero] at hmag
    simp at hmag
  obtain ⟨hlog, hlog'⟩ := floorLog_spec hnum hden
  rw [hmid] at hlog hlog'
  unfold magnitude at hlog hlog'
  have hlow : -1074 < floorLog x.roundingInterval.2.1 x.roundingInterval.2.2.2 + 1 := by
    refine two_zpow_lt_iff.mp (lt_of_le_of_lt ?_ hlog')
    calc (2 : ℚ) ^ (-1074 : Int) ≤ 2 ^ x.exponent := zpow_le_zpow_right₀ (by norm_num) hx.low
      _ ≤ x.significand * 2 ^ x.exponent := le_mul_of_one_le_left hpow.le hone
  have hhigh : floorLog x.roundingInterval.2.1 x.roundingInterval.2.2.2 < 1024 := by
    refine two_zpow_lt_iff.mp (lt_of_le_of_lt hlog ?_)
    calc (x.significand : ℚ) * 2 ^ x.exponent < 2 ^ (53 : Int) * 2 ^ x.exponent :=
          mul_lt_mul_of_pos_right hbound hpow
      _ ≤ 2 ^ (53 : Int) * 2 ^ (971 : Int) := by
          gcongr
          · norm_num
          · exact hx.high
      _ = 2 ^ (1024 : Int) := by
          rw [← zpow_add₀ (by norm_num)]
          rfl
  unfold top
  rw [← hmid]
  refine ten_zpow_floorLogTen_le hden ?_
  rw [hmid]
  exact le_trans (ten_zpow_guess_le (by omega) hhigh) hlog

/-- The double reaches further downwards than half a step of the grid of seventeen digits. -/
theorem half_step_lt_gap (hx : x.Canonical) (hpos : 0 < x.significand) :
    (10 : ℚ) ^ (x.top - 16) / 2 < x.gap * 2 ^ x.exponent := by
  have htop := ten_zpow_top_le hx hpos
  have hpow := two_zpow_pos x.exponent
  have hstep : (10 : ℚ) ^ (x.top - 16) ≤ x.significand * 2 ^ x.exponent / 10 ^ 16 := by
    rw [zpow_sub₀ (by norm_num)]
    exact div_le_div_of_nonneg_right htop (by norm_num)
  unfold gap
  split
  · rename_i hfull
    rw [hfull.1, hiddenBit_eq] at hstep
    norm_num at hstep
    linarith
  · have hbound : (x.significand : ℚ) ≤ 9007199254740992 := by
      exact_mod_cast hx.bound.le
    have hmul : (x.significand : ℚ) * 2 ^ x.exponent ≤ 9007199254740992 * 2 ^ x.exponent := by
      gcongr
    norm_num at hstep
    linarith

/-- The search finds the shortest digits. -/
theorem onGrid_shortest (hx : x.Canonical) (hpos : 0 < x.significand) :
    x.onGrid x.shortest.scale = some x.shortest.digits := by
  have hscale : x.top - (1 + 16 : Nat) + 1 = x.top - 16 := by
    push_cast
    ring
  have hgrid : (x.onGrid (x.top - (1 + 16 : Nat) + 1)).isSome = true := by
    rw [hscale]
    exact isSome_onGrid hpos (half_step_lt_gap hx hpos)
  have hfuel : 16 < 17 := by decide
  obtain ⟨d, hd⟩ := Option.isSome_iff_exists.mp (isSome_searchGrids 16 hfuel hgrid)
  rw [shortest_eq, hd, Option.getD_some]
  exact onGrid_of_searchGrids hd

/-- **A double covers its shortest digits.** -/
theorem covers_shortest (hx : x.Canonical) (hpos : 0 < x.significand) :
    x.Covers (x.shortest.digits * 10 ^ x.shortest.scale) :=
  covers_of_onGrid hpos (onGrid_shortest hx hpos)

theorem digits_shortest_pos (hx : x.Canonical) (hpos : 0 < x.significand) :
    0 < x.shortest.digits := by
  have hone : (1 : ℚ) ≤ x.significand := by exact_mod_cast hpos
  have hlow := (covers_shortest hx hpos).low
  have hgap := x.gap_le
  have hleft : 0 < (x.significand - x.gap) * 2 ^ x.exponent :=
    mul_pos (by linarith) (two_zpow_pos _)
  by_contra hzero
  rw [Nat.eq_zero_of_not_pos hzero] at hlow
  norm_num at hlow
  linarith

end FieldSelection.Binary64
