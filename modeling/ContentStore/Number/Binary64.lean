/-!
# Binary floating point numbers of 64 bits

A finite number of this format is a sign, a whole significand of at most 53
bits and a power of two.  Everything is computed in exact integer arithmetic
and rounded once, to the nearest number of the format and to the even one of
two equally near ones, so no operation of the machine's own floating point
is involved.
-/

namespace ContentStore.Number

/-- The number `± significand · 2 ^ exponent`.  Numbers made by `round` have
a significand below `2 ^ 53` and an exponent of at least `-1074`, and one of
the two at its limit: the significand has 53 bits or the exponent is `-1074`. -/
structure Binary64 where
  negative : Bool
  significand : Nat
  exponent : Int
  deriving DecidableEq, Repr

namespace Binary64

/-- Zero of either sign. -/
def zero (negative : Bool) : Binary64 := ⟨negative, 0, -1074⟩

def isZero (x : Binary64) : Bool := x.significand == 0

/-- The same number with the given sign. -/
def withSign (x : Binary64) (negative : Bool) : Binary64 := { x with negative }

/-- `num / den` rounded to a whole number, a half to the even neighbour. -/
def roundDiv (num den : Nat) : Nat :=
  let q := num / den
  let r := num % den
  if 2 * r < den then q
  else if den < 2 * r then q + 1
  else q + q % 2

/-- `num / den` in units of `2 ^ e`, as a fraction of whole numbers. -/
def inUnits (num den : Nat) (e : Int) : Nat × Nat :=
  if 0 ≤ e then (num, den * Nat.pow 2 e.toNat) else (num * Nat.pow 2 (-e).toNat, den)

/-- The exponent at which `num / den` has 53 bits before the point, and never
less than the format's least exponent. -/
def unitExponent (num den : Nat) : Int :=
  let guess : Int := (Nat.log2 num : Int) - (Nat.log2 den : Int) - 52
  let scaled := inUnits num den guess
  let e := if scaled.1 < Nat.pow 2 52 * scaled.2 then guess - 1 else guess
  max e (-1074)

/-- The number of the format nearest to `num / den`; none if that is beyond
the largest number.  `den` is not zero. -/
def round (num den : Nat) : Option Binary64 :=
  if num = 0 then some (zero false)
  else
    let e := unitExponent num den
    let scaled := inUnits num den e
    let m := roundDiv scaled.1 scaled.2
    let x : Binary64 := if m = Nat.pow 2 53 then ⟨false, Nat.pow 2 52, e + 1⟩ else ⟨false, m, e⟩
    if 971 < x.exponent then none else some x

/-- The number of the format nearest to a whole number. -/
def ofNat (n : Nat) : Option Binary64 := round n 1

/-- The size of the number as a fraction of whole numbers. -/
def toFraction (x : Binary64) : Nat × Nat :=
  if 0 ≤ x.exponent then (x.significand * Nat.pow 2 x.exponent.toNat, 1)
  else (x.significand, Nat.pow 2 (-x.exponent).toNat)

/-- The product of two sizes; none if it is beyond the largest number. -/
def mul (x y : Binary64) : Option Binary64 :=
  round (x.toFraction.1 * y.toFraction.1) (x.toFraction.2 * y.toFraction.2)

/-- The quotient of two sizes.  The divisor is not zero. -/
def div (x y : Binary64) : Option Binary64 :=
  round (x.toFraction.1 * y.toFraction.2) (x.toFraction.2 * y.toFraction.1)

/-- The number in units of `2 ^ (-1074)`, in which every number of the format
is whole. -/
def toUnits (x : Binary64) : Int :=
  let size : Nat := x.significand * Nat.pow 2 (x.exponent + 1074).toNat
  if x.negative then -(size : Int) else size

/-- Order by value: the two zeros are equal. -/
def lt (x y : Binary64) : Bool := decide (x.toUnits < y.toUnits)

/-- Order by value: the two zeros are equal. -/
def le (x y : Binary64) : Bool := decide (x.toUnits ≤ y.toUnits)

/-- The whole number that `x` is, if it is one. -/
def toInt? (x : Binary64) : Option Int :=
  let f := x.toFraction
  if f.1 % f.2 = 0 then
    let n : Nat := f.1 / f.2
    some (if x.negative then -(n : Int) else n)
  else none

/-- The number nearest to a whole number that fits a machine word. -/
def ofInt (n : Int) : Binary64 :=
  ((ofNat n.natAbs).getD (zero false)).withSign (decide (n < 0))

end Binary64

end ContentStore.Number
