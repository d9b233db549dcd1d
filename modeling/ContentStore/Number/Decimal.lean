import ContentStore.Number.Binary64

/-!
# Decimal text of binary numbers

A number is written with the fewest digits that read back as the same number,
and of those with the digits nearest to it.  A number is read from at most
nineteen or twenty leading digits, the ones that fit a 64-bit word, and a
power of ten that is then multiplied or divided in; both steps round.
-/

namespace ContentStore.Number

/-- Digits of a positive number: it is `0.d₁d₂… · 10 ^ point`, where `digits`
is the whole number `d₁d₂…`. -/
structure Digits where
  digits : Nat
  point : Int
  deriving DecidableEq, Repr

namespace Binary64

/-- Is `d · 10 ^ k` among the reals that round to the positive number `x`?
The ends of that interval belong to it exactly when the significand is even.
All sizes are compared in quarters of the unit `2 ^ exponent`. -/
def holds (x : Binary64) (d : Nat) (k : Int) : Bool :=
  let ten := if 0 ≤ k then Nat.pow 10 k.toNat else 1
  let tenth := if 0 ≤ k then 1 else Nat.pow 10 (-k).toNat
  let two := if 0 ≤ x.exponent then Nat.pow 2 x.exponent.toNat else 1
  let half := if 0 ≤ x.exponent then 1 else Nat.pow 2 (-x.exponent).toNat
  let point := 4 * d * ten * half
  let below := if x.significand = Nat.pow 2 52 ∧ -1074 < x.exponent then 1 else 2
  let low := (4 * x.significand - below) * two * tenth
  let high := (4 * x.significand + 2) * two * tenth
  if x.significand % 2 = 0 then decide (low ≤ point ∧ point ≤ high)
  else decide (low < point ∧ point < high)

/-- The whole part of `x / 10 ^ k`. -/
def wholeTens (x : Binary64) (k : Int) : Nat :=
  let f := x.toFraction
  if 0 ≤ k then f.1 / (f.2 * Nat.pow 10 k.toNat) else f.1 * Nat.pow 10 (-k).toNat / f.2

/-- Is `d · 10 ^ k` at most as far from `x` as `(d + 1) · 10 ^ k`?  In the
middle the even one is nearer. -/
def nearerBelow (x : Binary64) (d : Nat) (k : Int) : Bool :=
  let f := x.toFraction
  let (a, b) := if 0 ≤ k then (2 * f.1, (2 * d + 1) * Nat.pow 10 k.toNat * f.2)
    else (2 * f.1 * Nat.pow 10 (-k).toNat, (2 * d + 1) * f.2)
  decide (a < b) || (a == b && d % 2 == 0)

/-- The multiple of `10 ^ k` next to `x` that reads back as `x`, if one of its
two neighbours does. -/
def onGrid? (x : Binary64) (k : Int) : Option Nat :=
  let d := x.wholeTens k
  match x.holds d k, x.holds (d + 1) k with
  | true, true => some (if x.nearerBelow d k then d else d + 1)
  | true, false => some d
  | false, true => some (d + 1)
  | false, false => none

/-- Number of decimal digits. -/
def digitCount (n : Nat) : Nat := (Nat.toDigits 10 n).length

/-- `d · 10 ^ k` without trailing zeros. -/
def dropZeros : Nat → Nat → Int → Nat × Int
  | 0, d, k => (d, k)
  | fuel + 1, d, k => if d % 10 = 0 then dropZeros fuel (d / 10) (k + 1) else (d, k)

/-- Tries ever finer grids, `10 ^ k`, `10 ^ (k - 1)`, …, and takes the first
that has a point reading back as `x`. -/
def shortestFrom (x : Binary64) : Nat → Int → Nat × Int
  | 0, k => (x.wholeTens k, k)
  | fuel + 1, k =>
    match x.onGrid? k with
    | some d => dropZeros 20 d k
    | none => shortestFrom x fuel (k - 1)

/-- The fewest digits that read back as the positive number `x`, and of those
the nearest.  Seventeen digits always do. -/
def shortest (x : Binary64) : Digits :=
  let f := x.toFraction
  -- one more than the number of decimal digits before the point, or a lower bound of it
  let top : Int := if f.2 ≤ f.1 then (digitCount (f.1 / f.2) : Int)
    else 1 - (digitCount (f.2 / f.1) : Int)
  let (d, k) := shortestFrom x 20 top
  ⟨d, k + (digitCount d : Int)⟩

/-- The text of a number: a point is written between the digits while the
first digit stands for `10 ^ (-5)` to `10 ^ 15`, with at least one digit on
each side of it; otherwise an exponent follows the first digit, with its
sign. -/
def toText (x : Binary64) : String :=
  let sign := if x.negative then "-" else ""
  if x.isZero then sign ++ "0.0"
  else
    let s := x.shortest
    let ds := Nat.toDigits 10 s.digits
    let e := s.point - 1
    let body : List Char :=
      if -5 ≤ e ∧ e ≤ 15 then
        if s.point ≤ 0 then '0' :: '.' :: List.replicate (-s.point).toNat '0' ++ ds
        else
          let p := s.point.toNat
          if ds.length ≤ p then ds ++ List.replicate (p - ds.length) '0' ++ ['.', '0']
          else ds.take p ++ '.' :: ds.drop p
      else
        let mantissa := match ds with
          | [] => []
          | [d] => [d]
          | d :: rest => d :: '.' :: rest
        let size := Nat.toDigits 10 e.natAbs
        mantissa ++ 'e' :: (if 0 ≤ e then '+' else '-') :: size
    sign ++ String.ofList body

/-- `10 ^ k` in the format, for `k ≤ 308`. -/
def powerOfTen (k : Nat) : Binary64 := (ofNat (Nat.pow 10 k)).getD (zero false)

/-- `x / 10 ^ (308 · n)`, one factor at a time. -/
def divHuge (x : Binary64) : Nat → Option Binary64
  | 0 => some x
  | n + 1 => if x.isZero then some x else (x.div (powerOfTen 308)).bind (divHuge · n)

/-- `x / 10 ^ k`, dividing by `10 ^ 308` while more than that is left. -/
def divPower (x : Binary64) (k : Nat) : Option Binary64 :=
  let n := (k - 1) / 308
  (x.divHuge n).bind (·.div (powerOfTen (k - 308 * n)))

/-- The number read from `digits · 10 ^ exponent`; none beyond the largest
number. -/
def ofDecimal (negative : Bool) (digits : Nat) (exponent : Int) : Option Binary64 := do
  let x ← ofNat digits
  let y ←
    if 0 ≤ exponent then
      if exponent ≤ 308 then x.mul (powerOfTen exponent.toNat)
      else if x.isZero then some x
      else none
    else x.divPower (-exponent).toNat
  return y.withSign negative

end Binary64

end ContentStore.Number
