import FieldSelection.Number.Binary64

/-!
# The shortest digits of a double

The decimals that round to a double form an interval around it, with its ends exactly when the
significand is even. `Binary64.shortest` looks through the grids of 1, 2, … 17 significant digits:
the first grid with a point in the interval wins; of two points the nearer, and of two equally near
ones the even one.
-/

namespace FieldSelection

/-- The positive decimal number `digits * 10^scale`. -/
structure Decimal where
  digits : Nat
  scale : Int
  deriving DecidableEq, Repr

namespace Binary64

/-- `10^e` as a quotient: numerator and denominator. -/
def powTen (e : Int) : Nat × Nat :=
  (Nat.pow 10 e.toNat, Nat.pow 10 (-e).toNat)

/-- The decimals that round to a double, as quotients over one denominator: lowest, the double
    itself, highest. -/
def roundingInterval (x : Binary64) : Nat × Nat × Nat × Nat :=
  let (up, down) := powTwo (x.exponent - 2)
  let lowGap := if x.significand = hiddenBit && minExponent < x.exponent then 1 else 2
  ((4 * x.significand - lowGap) * up, 4 * x.significand * up, (4 * x.significand + 2) * up, down)

/-- The exponent of the highest power of ten that is at most `num / den`, searched downwards from
    `e` for at most `fuel` steps. -/
def floorLogTen (num den : Nat) : (fuel : Nat) → (e : Int) → Int
  | 0, e => e
  | fuel + 1, e =>
    let (up, down) := powTen e
    if den * up ≤ num * down then e else floorLogTen num den fuel (e - 1)

/-- The point of the grid of multiples of `10^scale` that stands for the double, if one does. -/
def onGrid (x : Binary64) (scale : Int) : Option Nat :=
  let (low, mid, high, den) := x.roundingInterval
  let (up, down) := powTen scale
  let unit := den * up
  let closed := x.significand % 2 == 0
  let inside := fun n : Nat =>
    if closed then decide (low * down ≤ n * unit ∧ n * unit ≤ high * down)
    else decide (low * down < n * unit ∧ n * unit < high * down)
  let floor := mid * down / unit
  let twice := 2 * (mid * down % unit)
  let nearer :=
    if twice < unit then floor else if twice = unit then floor + floor % 2 else floor + 1
  let farther := if nearer = floor then floor + 1 else floor
  if inside nearer then some nearer else if inside farther then some farther else none

/-- The first hit among the grids of `n`, `n + 1`, … digits below the power of ten `top`. -/
def searchGrids (x : Binary64) (top : Int) : (fuel n : Nat) → Option Decimal
  | 0, _ => none
  | fuel + 1, n =>
    let scale := top - n + 1
    match x.onGrid scale with
    | some digits => some ⟨digits, scale⟩
    | none => searchGrids x top fuel (n + 1)

/-- The shortest decimal that rounds to a double that is not zero. -/
def shortest (x : Binary64) : Decimal :=
  let (_, mid, _, den) := x.roundingInterval
  let guess : Int := (floorLog mid den * 30103) / 100000 + 1
  (x.searchGrids (floorLogTen mid den 3 guess) 17 1).getD ⟨0, 0⟩

example : ((ofRatio? false 1 10).map shortest) = some ⟨1, -1⟩ := by decide +kernel
example : shortest ⟨false, 1, -1074⟩ = ⟨5, -324⟩ := by decide +kernel
example : ((ofRatio? false 5629499534213122 10).map shortest) = some ⟨5629499534213122, -1⟩ := by
  decide +kernel

end Binary64

end FieldSelection
