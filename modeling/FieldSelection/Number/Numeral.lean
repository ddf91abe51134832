import FieldSelection.Number.Shortest

/-!
# Numerals

A number of a selection text or a document is an integer of 64 bits, signed or unsigned, or a
double:

* `ofParts?` takes the parts of a decimal literal: an integer literal in range stays an integer, all
  others are the nearest double, and `-0` is the double zero with a sign;
* `chars` writes an integer in decimal digits and a double with its shortest digits.
-/

namespace FieldSelection

/-- An integer of 64 bits, or a double. -/
inductive Numeral where
  | integer (n : Int)
  | double (x : Binary64)
  deriving DecidableEq, Repr

namespace Numeral

/-! ## 1. Reading -/

/-- The value of decimal digits. -/
def digitsValue (cs : List Char) : Nat :=
  cs.foldl (fun n c => 10 * n + (c.toNat - 48)) 0

/-- The parts of a decimal literal: sign, digits ahead of the point and after it, power of ten. -/
structure Parts where
  negative : Bool
  whole : List Char
  fraction : Option (List Char)
  power : Option Int
  deriving DecidableEq, Repr

/-- The greatest power of ten that a double can show, with room to spare: beyond it a literal is
    infinite or zero. -/
def powerBound : Int := 400

/-- The double nearest to `± digits * 10^scale`. -/
def nearest? (negative : Bool) (digits : Nat) (scale : Int) : Option Binary64 :=
  let size : Int := Nat.log2 digits / 4
  if digits = 0 || scale + 2 * size < -(2 * powerBound) then Binary64.ofRatio? negative 0 1
  else if powerBound < scale + size then none
  else
    let (up, down) := Binary64.powTen scale
    Binary64.ofRatio? negative (digits * up) down

/-- The number of a literal. `none` where it would be infinite. -/
def ofParts? (p : Parts) : Option Numeral :=
  match p.fraction, p.power with
  | none, none =>
    let n := digitsValue p.whole
    if p.negative then
      if n = 0 || Nat.pow 2 63 < n then (nearest? true n 0).map .double else some (.integer (-n))
    else if n < Nat.pow 2 64 then some (.integer n)
    else (nearest? false n 0).map .double
  | fraction, power =>
    let fraction := fraction.getD []
    (nearest? p.negative (digitsValue (p.whole ++ fraction))
      (power.getD 0 - fraction.length)).map .double

/-! ## 2. Writing -/

/-- How doubles are laid out: the exponents of the first digit between which they are positional. -/
structure Layout where
  positionalFrom : Int
  positionalTo : Int

/-- Doubles are positional from `0.00001` to below `10^16`, and always with a fraction digit; all
    others are written with an exponent that carries its sign and no fraction that is zero. -/
def layout : Layout := ⟨-5, 15⟩

/-- The decimal digits of a natural number. -/
def digitChars (n : Nat) : List Char := Nat.toDigits 10 n

/-- An integer in decimal digits. -/
def intChars (n : Int) : List Char :=
  if n < 0 then '-' :: digitChars n.natAbs else digitChars n.natAbs

/-- The digits `ds` with the first one at the power of ten `top`, in positional form. -/
def positional (ds : List Char) (top : Int) : List Char :=
  if top < 0 then
    '0' :: '.' :: (List.replicate (-top - 1).toNat '0' ++ ds)
  else
    let k := top.toNat + 1
    let whole := ds.take k ++ List.replicate (k - ds.length) '0'
    let fraction := ds.drop k
    whole ++ '.' :: (if fraction.isEmpty then ['0'] else fraction)

/-- The digits `ds` with the first one at the power of ten `top`, with an exponent. -/
def scientific (ds : List Char) (top : Int) : List Char :=
  let mantissa := match ds with
    | [] => ['0']
    | [d] => [d]
    | d :: rest => d :: '.' :: rest
  mantissa ++ 'e' :: (if top < 0 then '-' else '+') :: digitChars top.natAbs

/-- A double with its shortest digits. -/
def doubleChars (x : Binary64) : List Char :=
  let sign := if x.negative then ['-'] else []
  if x.significand = 0 then sign ++ ['0', '.', '0']
  else
    let d := x.shortest
    let ds := digitChars d.digits
    let top := d.scale + ds.length - 1
    let ds := (ds.reverse.dropWhile (· == '0')).reverse
    sign ++
      if layout.positionalFrom ≤ top ∧ top ≤ layout.positionalTo then positional ds top
      else scientific ds top

/-- The text of a number. -/
def chars : Numeral → List Char
  | .integer n => intChars n
  | .double x => doubleChars x

/-- Whether two numbers are equal: an integer never equals a double, and the sign of zero does not
    count. -/
def same : Numeral → Numeral → Bool
  | .integer m, .integer n => m == n
  | .double x, .double y => x.same y
  | _, _ => false

example :
    (ofParts? ⟨false, "18446744073709551616".toList, none, none⟩).map (String.ofList ∘ chars) =
      some "1.8446744073709552e+19" := by decide +kernel
example : (ofParts? ⟨true, ['0'], none, none⟩).map (String.ofList ∘ chars) = some "-0.0" := by
  decide +kernel
example : (ofParts? ⟨false, ['0'], some "000012".toList, none⟩).map (String.ofList ∘ chars) =
    some "0.000012" := by decide +kernel

end Numeral

end FieldSelection
