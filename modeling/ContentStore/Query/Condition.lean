import ContentStore.Query.Selector
import ContentStore.Text.Search

/-!
# Conditions

A filter is a tree of conditions.  There is no general negation: where a test
can be negated, it has a second operator for it.  A condition on a field that
holds several values asks for some value that passes; the negated operators
ask that there is none.
-/

namespace ContentStore.Query

open Number (Binary64)
open Time (Instant Date)

/-- Equality tests. -/
inductive EqualOp where
  | equals | notEquals
  deriving DecidableEq, Repr

/-- Tests on texts. -/
inductive TextOp where
  | contains | notContains | startsWith | notStartsWith | endsWith | notEndsWith
  deriving DecidableEq, Repr

/-- Tests on integers. -/
inductive NumberOp where
  | greater | greaterOrEqual | less | lessOrEqual
  deriving DecidableEq, Repr

/-- Tests on days. -/
inductive TimeOp where
  | after | afterOrOn | before | beforeOrOn | ofThisWeek | ofThisMonth | ofThisYear
  deriving DecidableEq, Repr

/-- Tests for absence. -/
inductive PresenceOp where
  | empty | notEmpty
  deriving DecidableEq, Repr

/-- Tests against a set of values. -/
inductive SetOp where
  | includesAny | notIncludesAny | includesAll | notIncludesAll
  deriving DecidableEq, Repr

/-- A filter tree. -/
inductive Condition where
  /-- Some value equals the raw one, read as a value of its kind. -/
  | basic (field : Selector) (op : EqualOp) (value : Json)
  | text (field : Selector) (op : TextOp) (value : String)
  | number (field : Selector) (op : NumberOp) (value : Binary64)
  | bool (field : Selector) (op : EqualOp) (value : Bool)
  /-- The instant is not needed for the periods around now. -/
  | time (field : Selector) (op : TimeOp) (value : Option Instant)
  | presence (field : Selector) (op : PresenceOp)
  | set (field : Selector) (op : SetOp) (values : List Json)
  | and (conditions : List Condition)
  | or (conditions : List Condition)

/-- The raw value, read as a value of the kind of `v`, is `v`. -/
def equalsRaw (v : Value) (raw : Json) : Bool := Value.coerce? v.kind raw == some v

namespace EqualOp

/-- The answer of a test, turned around by the negated operator. -/
def judge (equal : Bool) : EqualOp → Bool
  | equals => equal
  | notEquals => !equal

end EqualOp

namespace TextOp

/-- The test without its negation. -/
def test (op : TextOp) (s t : String) : Bool :=
  match op with
  | contains | notContains => Text.contains s t
  | startsWith | notStartsWith => Text.startsWith s t
  | endsWith | notEndsWith => Text.endsWith s t

/-- The answer of a test, turned around by the negated operators. -/
def judge (hit : Bool) : TextOp → Bool
  | contains | startsWith | endsWith => hit
  | notContains | notStartsWith | notEndsWith => !hit

end TextOp

namespace NumberOp

def test (op : NumberOp) (n x : Binary64) : Bool :=
  match op with
  | greater => x.lt n
  | greaterOrEqual => x.le n
  | less => n.lt x
  | lessOrEqual => n.le x

end NumberOp

namespace TimeOp

/-- The operator compares with a given instant. -/
def needsValue : TimeOp → Bool
  | after | afterOrOn | before | beforeOrOn => true
  | _ => false

/-- The day to compare with: that of the given instant, or the first of the
period that now belongs to. -/
def bound? (op : TimeOp) (now : Instant) (value : Option Instant) : Option Int :=
  match op with
  | ofThisWeek => some (Date.startOfWeek now.day)
  | ofThisMonth => some (Date.startOfMonth now.day)
  | ofThisYear => some (Date.startOfYear now.day)
  | _ => value.map Instant.day

/-- A day against the day to compare with. -/
def test (op : TimeOp) (day bound : Int) : Bool :=
  match op with
  | after => decide (bound < day)
  | before => decide (day < bound)
  | beforeOrOn => decide (day ≤ bound)
  | afterOrOn | ofThisWeek | ofThisMonth | ofThisYear => decide (bound ≤ day)

end TimeOp

namespace SetOp

def judge (any all : Bool) : SetOp → Bool
  | includesAny => any
  | notIncludesAny => !any
  | includesAll => all
  | notIncludesAll => !all

end SetOp

namespace Condition

mutual

/-- Selectors name known fields, and time comparisons have an instant. -/
def check (p : Package) : Condition → Except Error Unit
  | and cs => checkAll p cs
  | or cs => checkAll p cs
  | time field op value => do
    field.check p
    if op.needsValue && value.isNone then throw (.misuse .timeWithoutValue)
  | basic field _ _ => field.check p
  | text field _ _ => field.check p
  | number field _ _ => field.check p
  | bool field _ _ => field.check p
  | presence field _ => field.check p
  | set field _ _ => field.check p

def checkAll (p : Package) : List Condition → Except Error Unit
  | [] => .ok ()
  | c :: cs => do
    check p c
    checkAll p cs

end

/-- Some value that the selector reads passes. -/
def someValue (field : Selector) (c : Candidate) (test : Value → Bool) : Bool :=
  (field.read? c).any fun vs => vs.any test

mutual

/-- A candidate passes the filter. -/
def holds (now : Instant) (c : Candidate) : Condition → Bool
  | and cs => allHold now c cs
  | or cs => anyHolds now c cs
  | basic field op value => op.judge (someValue field c fun v => equalsRaw v value)
  | text field op value =>
    op.judge (someValue field c fun v => v.text?.any fun s => op.test s value)
  | number field op value =>
    someValue field c fun v => v.integer?.any fun n => op.test (Binary64.ofInt n) value
  | bool field op value => op.judge (someValue field c fun v => v.bool? == some value)
  | time field op value =>
    match op.bound? now value with
    | none => false
    | some bound => someValue field c fun v => v.dateTime?.any fun t => op.test t.day bound
  | presence field op =>
    let empty := (field.read? c).all fun vs => vs.all Value.isEmpty
    match op with
    | .empty => empty
    | .notEmpty => !empty
  | set field op values =>
    let stored := (field.read? c).getD []
    let found (raw : Json) : Bool := stored.any fun v => equalsRaw v raw
    op.judge (!stored.isEmpty && values.any found) (!stored.isEmpty && values.all found)

def allHold (now : Instant) (c : Candidate) : List Condition → Bool
  | [] => true
  | x :: xs => holds now c x && allHold now c xs

def anyHolds (now : Instant) (c : Candidate) : List Condition → Bool
  | [] => false
  | x :: xs => holds now c x || anyHolds now c xs

end

end Condition

end ContentStore.Query
