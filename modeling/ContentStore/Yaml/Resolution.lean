import ContentStore.Number.Binary64

/-!
# What plain scalars stand for

A plain scalar stands for null, a truth value or a number when it is spelled
like one, and for its text otherwise.  Whole numbers may be written in
hexadecimal, octal or binary digits.  Digits with a zero in front are no
number.
-/

namespace ContentStore.Yaml

open Number (Binary64)

/-- The spellings of null. -/
def isNull (s : String) : Bool := s == "null" || s == "Null" || s == "NULL" || s == "~"

/-- The spellings of truth values. -/
def readBool? (s : String) : Option Bool :=
  if s == "true" || s == "True" || s == "TRUE" then some true
  else if s == "false" || s == "False" || s == "FALSE" then some false
  else none

/-- The value of a digit, also beyond ten. -/
def digitOf? (base : Nat) (c : Char) : Option Nat :=
  let d? : Option Nat :=
    if c.isDigit then some (c.toNat - 48)
    else if 'a' ≤ c ∧ c ≤ 'z' then some (c.toNat - 87)
    else if 'A' ≤ c ∧ c ≤ 'Z' then some (c.toNat - 55)
    else none
  d?.filter fun d => decide (d < base)

/-- A number from its digits, of which there is one at least. -/
def readDigits? (base : Nat) (cs : List Char) : Option Nat :=
  if cs.isEmpty then none
  else cs.foldl (fun n c => n.bind fun n => (digitOf? base c).map (base * n + ·)) (some 0)

/-- The base that digits are written to, and the digits. -/
def splitBase : List Char → Nat × List Char
  | '0' :: 'x' :: cs => (16, cs)
  | '0' :: 'o' :: cs => (8, cs)
  | '0' :: 'b' :: cs => (2, cs)
  | cs => (10, cs)

/-- The sign in front, if there is one. -/
def splitSign : List Char → Option Char × List Char
  | '+' :: cs => (some '+', cs)
  | '-' :: cs => (some '-', cs)
  | cs => (none, cs)

/-- Digits with a zero in front. -/
def isPadded (cs : List Char) : Bool :=
  match (splitSign cs).2 with
  | '0' :: c :: rest => (c :: rest).all Char.isDigit
  | _ => false

/-- A whole number with an optional sign. -/
def readInt? (s : String) : Option Int :=
  let cs := s.toList
  let (sign, rest) := splitSign cs
  let (base, digits) := splitBase rest
  if base = 10 ∧ isPadded cs then none
  else (readDigits? base digits).map fun n => if sign = some '-' then -(n : Int) else n

/-- A whole number without a minus sign. -/
def readNat? (s : String) : Option Nat :=
  if s.startsWith "-" then none else (readInt? s).map Int.toNat

/-- A decimal fraction with an optional exponent: `digits · 10 ^ exponent`. -/
def readFraction? (cs : List Char) : Option (Nat × Int) := do
  let whole := cs.takeWhile Char.isDigit
  let rest := cs.drop whole.length
  let (places, rest) : List Char × List Char := match rest with
    | '.' :: rest => (rest.takeWhile Char.isDigit, rest.dropWhile Char.isDigit)
    | rest => ([], rest)
  let digits ← readDigits? 10 (whole ++ places)
  let scale : Int := -(places.length : Int)
  match rest with
  | [] => return (digits, scale)
  | e :: rest =>
    if e != 'e' && e != 'E' then none
    else
      let (sign, ds) := splitSign rest
      let n ← readDigits? 10 ds
      return (digits, if sign = some '-' then scale - n else scale + n)

/-- The number of the format nearest to `digits · 10 ^ exponent`; none if that
is too large. -/
def nearest (digits : Nat) (exponent : Int) : Option Binary64 :=
  let size : Int := (Nat.toDigits 10 digits).length + exponent
  if digits = 0 ∨ size < -400 then some (.zero false)
  else if 400 < size then none
  else if 0 ≤ exponent then Binary64.round (digits * Nat.pow 10 exponent.toNat) 1
  else Binary64.round digits (Nat.pow 10 (-exponent).toNat)

/-- A number with a point or an exponent. -/
def readReal? (s : String) : Option Binary64 := do
  let (sign, rest) := splitSign s.toList
  let (digits, exponent) ← readFraction? rest
  return (← nearest digits exponent).withSign (sign = some '-')

/-- The spellings of what is no finite number. -/
def isInfinite (s : String) : Bool :=
  let t := String.ofList (splitSign s.toList).2
  t == ".inf" || t == ".Inf" || t == ".INF" || s == ".nan" || s == ".NaN" || s == ".NAN"

end ContentStore.Yaml
