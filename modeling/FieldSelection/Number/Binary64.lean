/-!
# Binary64 numbers

A finite double is a sign, a significand and an exponent: `(-1)^s * m * 2^q`. No machine arithmetic
is involved; everything here is exact arithmetic on natural numbers:

* `roundDiv` rounds a quotient to the nearest integer, a half to the even neighbour;
* `Binary64.ofRatio?` takes a quotient to the nearest double, and refuses one that would be
  infinite.

The significand has 53 bits unless the exponent is the smallest one, -1074.
-/

namespace FieldSelection

/-! ## 1. Rounding a quotient -/

/-- The integer nearest to `num / den`; a half goes to the even neighbour. -/
def roundDiv (num den : Nat) : Nat :=
  let low := num / den
  let twice := 2 * (num % den)
  if twice < den then low
  else if twice = den then low + low % 2
  else low + 1

example : (roundDiv 5 2, roundDiv 7 2, roundDiv 8 3) = (2, 4, 3) := by decide

/-- A rounded quotient is at most half a unit away. -/
theorem two_mul_roundDiv (num den : Nat) (h : 0 < den) :
    2 * num ≤ 2 * (roundDiv num den * den) + den ∧
      2 * (roundDiv num den * den) ≤ 2 * num + den := by
  have hd := Nat.div_add_mod num den
  have hm := Nat.mod_lt num h
  have hc : den * (num / den) = num / den * den := Nat.mul_comm _ _
  unfold roundDiv
  simp only
  split
  · omega
  · split
    · rcases Nat.mod_two_eq_zero_or_one (num / den) with he | he
      · rw [he, Nat.add_zero]; omega
      · rw [he, Nat.add_mul, Nat.one_mul]; omega
    · rw [Nat.add_mul, Nat.one_mul]; omega

/-! ## 2. Doubles -/

/-- The finite double `(-1)^negative * significand * 2^exponent`. -/
structure Binary64 where
  negative : Bool
  significand : Nat
  exponent : Int
  deriving DecidableEq, Repr

namespace Binary64

/-- The exponent of the smallest doubles. -/
def minExponent : Int := -1074

/-- The exponent of the greatest doubles. -/
def maxExponent : Int := 971

/-- The highest bit of a full significand, `2^52`. -/
def hiddenBit : Nat := Nat.pow 2 52

/-- `2^e` as a quotient: numerator and denominator. -/
def powTwo (e : Int) : Nat × Nat :=
  (Nat.pow 2 e.toNat, Nat.pow 2 (-e).toNat)

/-- The exponent of the highest power of two that is at most the positive quotient `num / den`. -/
def floorLog (num den : Nat) : Int :=
  let e : Int := (Nat.log2 num : Int) - Nat.log2 den
  let (up, down) := powTwo e
  if num * down < den * up then e - 1 else e

/-- The double nearest to `num / den`, a half going to the even significand. `none` where it would
    be infinite. -/
def ofRatio? (negative : Bool) (num den : Nat) : Option Binary64 :=
  if num = 0 then some ⟨negative, 0, minExponent⟩
  else
    let q := max (floorLog num den - 52) minExponent
    let (up, down) := powTwo q
    let m := roundDiv (num * down) (den * up)
    let (m, q) := if m = 2 * hiddenBit then (hiddenBit, q + 1) else (m, q)
    if maxExponent < q then none else some ⟨negative, m, q⟩

/-- Whether two doubles are the same number: the sign of zero does not count. -/
def same (x y : Binary64) : Bool :=
  x == y || (x.significand == 0 && y.significand == 0)

example : ofRatio? false 1 10 = some ⟨false, 0x1999999999999A, -56⟩ := by decide +kernel

end Binary64

end FieldSelection
