import FieldSelection.Proofs.Grammar.Numerals
import FieldSelection.Proofs.Number.Writing

/-!
# Doubles in texts

* The numbers that reading makes are `Canonical` (`canonical_of_ofParts?`).
* A canonical number whose text shows no exponent reads back (`rereads_of_no_exponent`).
* A text with an exponent is no number of the grammar: at most it is read as a number below ten, the
  word `e` and a negative integer, and neither of these numbers is written with an exponent
  (`no_exponent_of_kinds?`).
-/

namespace FieldSelection

/-- The numbers that reading makes: integers of 64 bits, and doubles that rounding comes to. -/
def Numeral.Canonical : Numeral → Prop
  | .integer n => -2 ^ 63 ≤ n ∧ n < 2 ^ 64
  | .double x => x.Canonical

namespace Grammar

open Numeral

/-! ## 1. Numbers that are read -/

theorem canonical_of_map_double {r : Option Binary64} {n : Numeral}
    (hr : ∀ x, r = some x → x.Canonical) (h : r.map Numeral.double = some n) : n.Canonical := by
  obtain ⟨x, hx, rfl⟩ := Option.map_eq_some_iff.mp h
  exact hr x hx

/-- A literal is read as a canonical number. -/
theorem canonical_of_ofParts? {p : Parts} {n : Numeral} (h : ofParts? p = some n) :
    n.Canonical := by
  unfold ofParts? at h
  split at h
  · simp only at h
    split at h
    · split at h
      · exact canonical_of_map_double (fun x hx => (canonical_of_nearest? hx).1) h
      · rename_i hbound
        cases h
        have hle : digitsValue p.whole ≤ 2 ^ 63 := by
          simp only [Bool.or_eq_true, decide_eq_true_eq, not_or, not_lt] at hbound
          exact hbound.2
        exact ⟨by omega, by omega⟩
    · split at h
      · rename_i hbound
        cases h
        have hlt : digitsValue p.whole < 2 ^ 64 := hbound
        exact ⟨by omega, by omega⟩
      · exact canonical_of_map_double (fun x hx => (canonical_of_nearest? hx).1) h
  · exact canonical_of_map_double (fun x hx => (canonical_of_nearest? hx).1) h

/-! ## 2. Numbers without an exponent -/

/-- Digits on both sides of a point that a double covers are read as the double. -/
theorem kinds?_written {x : Binary64} (hx : x.Canonical) (hpos : 0 < x.significand)
    {whole fraction : List Char} (h : Written whole fraction)
    (hcovers : x.Covers (writtenValue whole fraction)) :
    kinds? ((if x.negative then ['-'] else []) ++ (whole ++ '.' :: fraction)) =
      some [.number (.double x)] := by
  have hvalue : 0 < digitsValue (whole ++ fraction) := by
    by_contra hzero
    have hlow := hcovers.low
    have hone : (1 : ℚ) ≤ x.significand := by exact_mod_cast hpos
    have hleft : 0 < (x.significand - x.gap) * 2 ^ x.exponent :=
      mul_pos (by linarith [x.gap_le]) (Binary64.two_zpow_pos _)
    rw [writtenValue, Nat.eq_zero_of_not_pos hzero] at hlow
    norm_num at hlow
    linarith
  rw [kinds?_decimal x.negative h.wholeDigits h.wholeNonempty h.fractionDigits h.fractionNonempty,
    numeral?_eq _ _ h.notLeading, ofParts?]
  simp only [Option.getD_some, Option.getD_none]
  rw [nearest?_of_covers hx hpos hvalue hcovers]
  rfl

theorem kinds?_zero (negative : Bool) :
    kinds? ((if negative then ['-'] else []) ++ (['0'] ++ '.' :: ['0'])) =
      some [.number (.double ⟨negative, 0, Binary64.minExponent⟩)] := by
  rw [kinds?_decimal negative (by simp) (by simp) (by simp) (by simp), numeral?_eq _ _ rfl]
  rfl

theorem rereads_of_positional {x : Binary64} (hx : x.Canonical) (hpos : 0 < x.significand)
    (h : -5 ≤ x.power ∧ x.power ≤ 15) : (Numeral.double x).Rereads := by
  obtain ⟨d, ds, hdigits, hd⟩ := Binary64.exists_digits_eq_cons hx hpos
  have hds : ∀ c ∈ d :: ds, c.isDigit = true :=
    fun c hc => Binary64.isDigit_of_mem_digits (hdigits ▸ hc)
  obtain ⟨whole, fraction, htext, hwritten, hvalue⟩ := positional_eq hds hd x.power
  have hcovers : x.Covers (writtenValue whole fraction) := by
    rw [hvalue, ← hdigits, Binary64.digits_value]
    exact Binary64.covers_shortest hx hpos
  show kinds? (doubleChars x) = _
  rw [Binary64.doubleChars_eq hpos.ne', if_pos h, hdigits, htext]
  exact kinds?_written hx hpos hwritten hcovers

/-- A canonical number whose text shows no exponent reads back. -/
theorem rereads_of_no_exponent : ∀ {n : Numeral}, n.Canonical → 'e' ∉ n.chars → n.Rereads
  | .integer n, hn, _ => rereads_integer hn.1 hn.2
  | .double x, hx, h => by
      by_cases hzero : x.significand = 0
      · have hmin : x.exponent = Binary64.minExponent := by
          by_contra hne
          have hfull := hx.full (lt_of_le_of_ne hx.low (Ne.symm hne))
          rw [hzero, Binary64.hiddenBit_eq] at hfull
          omega
        obtain ⟨negative, m, q⟩ := x
        obtain rfl : m = 0 := hzero
        obtain rfl : q = Binary64.minExponent := hmin
        exact kinds?_zero negative
      · have hpos := Nat.pos_of_ne_zero hzero
        have hpower := mt (e_mem_doubleChars_iff hx hpos).mpr h
        exact rereads_of_positional hx hpos (not_not.mp hpower)

/-! ## 3. Numbers with an exponent -/

/-- A double between a half and twenty is written without an exponent. -/
theorem no_exponent_of_magnitude {x : Binary64} (hx : x.Canonical) (hlow : 1 / 2 ≤ x.magnitude)
    (hhigh : x.magnitude ≤ 20) : 'e' ∉ doubleChars x := by
  have hpow := Binary64.two_zpow_pos x.exponent
  have hpos : 0 < x.significand := by
    by_contra hzero
    rw [Binary64.magnitude, Nat.eq_zero_of_not_pos hzero] at hlow
    norm_num at hlow
  have hone : (1 : ℚ) ≤ x.significand := by exact_mod_cast hpos
  have hmul : (1 : ℚ) * 2 ^ x.exponent ≤ x.significand * 2 ^ x.exponent :=
    mul_le_mul_of_nonneg_right hone hpow.le
  have hgap : x.gap * 2 ^ x.exponent ≤ 1 / 2 * 2 ^ x.exponent :=
    mul_le_mul_of_nonneg_right x.gap_le hpow.le
  have hcovers := Binary64.covers_shortest hx hpos
  have hcoversLow := hcovers.low
  have hcoversHigh := hcovers.high
  obtain ⟨hpower, hpower'⟩ := Binary64.power_bounds hx hpos
  unfold Binary64.magnitude at hlow hhigh
  have hlt : (10 : ℚ) ^ x.power < 10 ^ (2 : Int) := by
    norm_num
    linarith
  have hgt : (10 : ℚ) ^ (-1 : Int) < 10 ^ (x.power + 1) := by
    norm_num
    linarith
  have hexp := (zpow_lt_zpow_iff_right₀ (by norm_num)).mp hlt
  have hexp' := (zpow_lt_zpow_iff_right₀ (by norm_num)).mp hgt
  rw [e_mem_doubleChars_iff hx hpos, not_not]
  omega

/-- A decimal from one to below ten is read as a number that is written without an exponent. -/
theorem no_exponent_of_nearest? {negative : Bool} {digits : Nat} {scale : Int} {x : Binary64}
    (hlow : 1 ≤ (digits : ℚ) * 10 ^ scale) (hhigh : (digits : ℚ) * 10 ^ scale < 10)
    (h : nearest? negative digits scale = some x) : 'e' ∉ doubleChars x := by
  have hdigits : 0 < digits := by
    by_contra hzero
    rw [Nat.eq_zero_of_not_pos hzero] at hlow
    norm_num at hlow
  have hx := (canonical_of_nearest? h).1
  have hsmall : (10 : ℚ) ^ (-400 : Int) < digits * 10 ^ scale := by
    refine lt_of_lt_of_le ?_ hlow
    exact zpow_lt_one_of_neg₀ (by norm_num) (by norm_num)
  have hgreat : (digits : ℚ) * 10 ^ scale < 10 ^ (400 : Int) := by
    calc (digits : ℚ) * 10 ^ scale < 10 := hhigh
      _ = 10 ^ (1 : Int) := (zpow_one _).symm
      _ < 10 ^ (400 : Int) := zpow_lt_zpow_right₀ (by norm_num) (by norm_num)
  rw [nearest?_eq negative hdigits hsmall hgreat] at h
  rw [← ratio_powTen] at hlow hhigh
  obtain ⟨hnear, hnear'⟩ := Binary64.near_of_ofRatio?
    (Nat.mul_pos hdigits (Binary64.powTen_pos scale).1) (Binary64.powTen_pos scale).2 hlow h
  exact no_exponent_of_magnitude hx (by linarith) (by linarith)

/-- The part of a text from the exponent on. -/
theorem kinds?_exponent (top : Int) :
    kinds? ('e' :: (if top < 0 then '-' else '+') :: digitChars top.natAbs) =
      if top < 0 then
        (numeral? true (digitChars top.natAbs) none).map fun k => [.name "e", k]
      else none := by
  have hname : lexeme? 'e' ((if top < 0 then '-' else '+') :: digitChars top.natAbs) =
      some (.name "e", (if top < 0 then '-' else '+') :: digitChars top.natAbs) := by
    rw [lexeme?_of_isNameStart _ (by decide)]
    split <;> rfl
  rw [kinds?_cons _ (by decide), hname]
  split
  · have hdigits : kinds? ('-' :: digitChars top.natAbs) =
        (numeral? true (digitChars top.natAbs) none).map ([·]) :=
      kinds?_integer true (fun c => isDigit_of_mem_digitChars) (digitChars_ne_nil _)
    rw [Option.bind_some, hdigits]
    cases numeral? true (digitChars top.natAbs) none <;> rfl
  · have hplus : kinds? ('+' :: digitChars top.natAbs) = none := by
      rw [kinds?_cons _ (by decide)]
      rfl
    rw [Option.bind_some, hplus]
    rfl

/-- The number of the exponent is written without an exponent. -/
theorem no_exponent_of_power {top : Int} (hlow : -400 < top + 1) (hneg : top < 0) {m : Numeral}
    (h : numeral? true (digitChars top.natAbs) none = some (.number m)) : 'e' ∉ m.chars := by
  have hzero : ¬(top.natAbs = 0 || Nat.pow 2 63 < top.natAbs) := by
    have hbound : top.natAbs ≤ Nat.pow 2 63 := by
      show top.natAbs ≤ 2 ^ 63
      omega
    simp only [Bool.or_eq_true, decide_eq_true_eq, not_or, not_lt]
    exact ⟨by omega, hbound⟩
  rw [numeral?_eq _ _ (not_leadingZero_digitChars _), ofParts?, digitsValue_digitChars] at h
  simp only [if_neg hzero, ↓reduceIte] at h
  cases h
  exact e_notMem_integer _

/-- The first digit alone is written without an exponent. -/
theorem no_exponent_of_digit (negative : Bool) {d : Char} (hd : d.isDigit = true) (hne : d ≠ '0')
    {m : Numeral} (h : numeral? negative [d] none = some (.number m)) : 'e' ∉ m.chars := by
  have hvalue : digitsValue [d] = d.toNat - 48 := by simp [digitsValue]
  obtain ⟨hlow, hhigh⟩ := toNat_of_isDigit hd
  have hpos : d.toNat ≠ 48 := fun h => hne (Char.toNat_inj.mp h)
  have hzero : ¬(d.toNat - 48 = 0 || Nat.pow 2 63 < d.toNat - 48) := by
    have hbound : d.toNat - 48 ≤ Nat.pow 2 63 := by
      show d.toNat - 48 ≤ 2 ^ 63
      omega
    simp only [Bool.or_eq_true, decide_eq_true_eq, not_or, not_lt]
    exact ⟨by omega, hbound⟩
  have hgreat : d.toNat - 48 < Nat.pow 2 64 := by
    show d.toNat - 48 < 2 ^ 64
    omega
  rw [numeral?_eq _ _ (by simp), ofParts?, hvalue] at h
  cases negative with
  | true =>
    simp only [if_neg hzero, ↓reduceIte] at h
    cases h
    exact e_notMem_integer _
  | false =>
    simp only [if_pos hgreat, Bool.false_eq_true, ↓reduceIte] at h
    cases h
    exact e_notMem_integer _

/-- The digits ahead of the exponent are written without one. -/
theorem no_exponent_of_mantissa (negative : Bool) {d : Char} {ds : List Char}
    (hlow : 1 ≤ (digitsValue (d :: ds) : ℚ) * 10 ^ (0 - (ds.length : Int)))
    (hhigh : (digitsValue (d :: ds) : ℚ) * 10 ^ (0 - (ds.length : Int)) < 10)
    {m : Numeral} (h : numeral? negative [d] (some ds) = some (.number m)) : 'e' ∉ m.chars := by
  rw [numeral?_eq _ _ (by simp), ofParts?] at h
  simp only [Option.getD_some, Option.getD_none, Option.map_map, Option.map_eq_some_iff] at h
  obtain ⟨x, hx, hm⟩ := h
  cases hm
  exact no_exponent_of_nearest? hlow hhigh hx

/-- The digits of a double with a point after the first one are from one to below ten. -/
theorem mantissa_bounds {x : Binary64} (hx : x.Canonical) (hpos : 0 < x.significand) {d : Char}
    {ds : List Char} (hdigits : x.digits = d :: ds) :
    1 ≤ (digitsValue (d :: ds) : ℚ) * 10 ^ (0 - (ds.length : Int)) ∧
      (digitsValue (d :: ds) : ℚ) * 10 ^ (0 - (ds.length : Int)) < 10 := by
  obtain ⟨hlow, hhigh⟩ := Binary64.power_bounds hx hpos
  have hpow := Binary64.ten_zpow_pos x.power
  have hvalue := Binary64.digits_value x
  have hexp : x.power + 1 - x.digits.length = (0 - (ds.length : Int)) + x.power := by
    rw [hdigits, List.length_cons]
    push_cast
    ring
  rw [hexp, zpow_add₀ (by norm_num), ← mul_assoc, hdigits] at hvalue
  rw [← hvalue] at hlow hhigh
  rw [zpow_add_one₀ (by norm_num), mul_comm (10 ^ x.power)] at hhigh
  constructor
  · rwa [le_mul_iff_one_le_left hpow] at hlow
  · rwa [mul_lt_mul_iff_left₀ hpow] at hhigh

theorem neg_lt_power {x : Binary64} (hx : x.Canonical) (hpos : 0 < x.significand) :
    -400 < x.power + 1 := by
  have hsmall := (Binary64.magnitude_bounds_of_covers hx hpos (Binary64.covers_shortest hx hpos)).1
  have hlt := lt_trans hsmall (Binary64.power_bounds hx hpos).2
  exact (zpow_lt_zpow_iff_right₀ (by norm_num)).mp hlt

/-- The point and the digits after it, ahead of an exponent. -/
theorem fraction?_mantissa {ds rest : List Char} (hds : ∀ c ∈ ds, c.isDigit = true)
    (hne : ds ≠ []) : fraction? ('.' :: (ds ++ 'e' :: rest)) = some (some ds, 'e' :: rest) := by
  have hend : ∀ c ∈ ('e' :: rest).head?, c.isDigit = false := by simp
  have hhead : (ds ++ 'e' :: rest).head? ≠ some '.' := by
    obtain ⟨d, ds, rfl⟩ := List.exists_cons_of_ne_nil hne
    intro h
    cases h
    cases hds '.' List.mem_cons_self
  rw [fraction?_point, if_neg hhead, takeWhile_append_of_head hend, dropWhile_append_of_head hend,
    List.takeWhile_eq_self_iff.mpr hds, List.dropWhile_eq_nil_iff.mpr hds,
    if_neg (by simpa using hne)]
  rfl

/-- A text with an exponent is read as a number, the word `e` and a negative integer, if it is. -/
theorem kinds?_scientific (negative : Bool) {d : Char} {ds : List Char}
    (hds : ∀ c ∈ d :: ds, c.isDigit = true) (top : Int) :
    kinds? ((if negative then ['-'] else []) ++ scientific (d :: ds) top) =
      (numeral? negative [d] (if ds.isEmpty then none else some ds)).bind fun k =>
        (kinds? ('e' :: (if top < 0 then '-' else '+') :: digitChars top.natAbs)).map (k :: ·) := by
  obtain ⟨hd, hds⟩ := List.forall_mem_cons.mp hds
  have hwhole : ∀ c ∈ [d], c.isDigit = true := by simpa using hd
  cases ds with
  | nil =>
    refine (kinds?_digits negative _ hwhole (by simp) (by simp)).trans ?_
    rw [fraction?_of_head_ne (by simp)]
    rfl
  | cons d' ds =>
    refine (kinds?_digits negative ('.' :: (d' :: ds ++ 'e' :: _)) hwhole (by simp)
      (by simp)).trans ?_
    rw [fraction?_mantissa hds (by simp)]
    rfl

/-- **No number in a text with an exponent is written with an exponent.** -/
theorem no_exponent_of_kinds? {n : Numeral} (hn : n.Canonical) (he : 'e' ∈ n.chars)
    {ks : List Token.Kind} (h : kinds? n.chars = some ks) {m : Numeral}
    (hm : .number m ∈ ks) : 'e' ∉ m.chars := by
  cases n with
  | integer n => exact absurd he (e_notMem_integer n)
  | double x =>
    change 'e' ∈ doubleChars x at he
    change kinds? (doubleChars x) = some ks at h
    have hpos : 0 < x.significand := by
      by_contra hzero
      rw [doubleChars, if_pos (Nat.eq_zero_of_not_pos hzero)] at he
      split at he <;> simp at he
    have hx : x.Canonical := hn
    have hpower := (e_mem_doubleChars_iff hx hpos).mp he
    obtain ⟨d, ds, hdigits, hd⟩ := Binary64.exists_digits_eq_cons hx hpos
    have hds : ∀ c ∈ d :: ds, c.isDigit = true :=
      fun c hc => Binary64.isDigit_of_mem_digits (hdigits ▸ hc)
    rw [Binary64.doubleChars_eq hpos.ne', if_neg hpower, hdigits, kinds?_scientific _ hds,
      kinds?_exponent, Option.bind_eq_some_iff] at h
    obtain ⟨k, hk, h⟩ := h
    split at h
    · rename_i hneg
      simp only [Option.map_map, Option.map_eq_some_iff] at h
      obtain ⟨k', hk', rfl⟩ := h
      obtain ⟨hlow, hhigh⟩ := mantissa_bounds hx hpos hdigits
      rcases List.mem_cons.mp hm with rfl | hm
      · split at hk
        · exact no_exponent_of_digit x.negative (hds d List.mem_cons_self) hd hk
        · exact no_exponent_of_mantissa x.negative hlow hhigh hk
      · obtain rfl : .number m = k' := by simpa using hm
        exact no_exponent_of_power (neg_lt_power hx hpos) hneg hk'
    · cases h

end Grammar

end FieldSelection
