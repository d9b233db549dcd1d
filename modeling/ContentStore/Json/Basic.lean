import ContentStore.Number.Binary64
import ContentStore.Number.Word

/-!
# JSON values

Raw field input, filters and stored records are JSON.  A number is a whole
number of the range `-2 ^ 63 … 2 ^ 64 - 1` when it was written as one, and a
binary number of 64 bits otherwise; the two never mix, so `1` and `1.0` stay
apart.  The members of an object keep the order and the repetitions of the
text until `settle` puts them into their normal form.
-/

namespace ContentStore

open Number (Binary64)

namespace Json

/-- A number as it was written: whole, or with a point or an exponent. -/
inductive Numeral where
  | whole (n : Int)
  | real (x : Binary64)
  deriving DecidableEq, Repr

end Json

/-- A JSON value. -/
inductive Json where
  | null
  | bool (b : Bool)
  | number (n : Json.Numeral)
  | string (s : String)
  | array (elements : List Json)
  | object (members : List (String × Json))
  deriving Repr, Inhabited

namespace Json

/-- A whole number as a JSON value. -/
def ofInt (n : Int) : Json := .number (.whole n)

/-- A count as a JSON value. -/
def ofNat (n : Nat) : Json := .number (.whole n)

/-- A value that may be missing; missing is written as null. -/
def ofOption {α : Type} (f : α → Json) : Option α → Json
  | none => .null
  | some a => f a

/-- An array of the written elements. -/
def ofList {α : Type} (f : α → Json) (xs : List α) : Json := .array (xs.map f)

def isNull : Json → Bool
  | .null => true
  | _ => false

/-- The name of the kind of value, as type errors spell it. -/
def typeName : Json → String
  | .null => "null"
  | .bool _ => "bool"
  | .number _ => "number"
  | .string _ => "string"
  | .array _ => "array"
  | .object _ => "object"

def asString? : Json → Option String
  | .string s => some s
  | _ => none

def asBool? : Json → Option Bool
  | .bool b => some b
  | _ => none

def asArray? : Json → Option (List Json)
  | .array xs => some xs
  | _ => none

/-- A whole number between the two limits, written without point or
exponent. -/
def asIntIn? (low high : Int) : Json → Option Int
  | .number (.whole n) => if low ≤ n ∧ n ≤ high then some n else none
  | _ => none

/-- A whole number of 64 bits with sign. -/
def asInt64? : Json → Option Int := asIntIn? Number.leastInt64 Number.largestInt64

/-- A whole number of 32 bits with sign. -/
def asInt32? : Json → Option Int := asIntIn? Number.leastInt32 Number.largestInt32

/-- A whole number of 64 bits without sign. -/
def asNat64? (j : Json) : Option Nat := (j.asIntIn? 0 Number.largestNat64).map Int.toNat

/-- Any number, rounded to a binary number of 64 bits. -/
def asReal? : Json → Option Binary64
  | .number (.whole n) => some (Binary64.ofInt n)
  | .number (.real x) => some x
  | _ => none

/-- The member of that name.  Where a name is repeated the last one counts. -/
def member? (name : String) (members : List (String × Json)) : Option Json :=
  members.reverse.lookup name

/-- Puts a member into members sorted by name, in place of one of that name. -/
def insertMember (name : String) (value : Json) :
    List (String × Json) → List (String × Json)
  | [] => [(name, value)]
  | (n, v) :: rest =>
    if name < n then (name, value) :: (n, v) :: rest
    else if name = n then (name, value) :: rest
    else (n, v) :: insertMember name value rest

/-- Members sorted by name; of those with one name the last stays. -/
def sortMembers (members : List (String × Json)) : List (String × Json) :=
  members.foldl (fun sorted m => insertMember m.1 m.2 sorted) []

mutual

/-- The normal form: in every object each name once, in sorted order. -/
def settle : Json → Json
  | .array xs => .array (settleAll xs)
  | .object ms => .object (sortMembers (settleMembers ms))
  | .null => .null
  | .bool b => .bool b
  | .number n => .number n
  | .string s => .string s

/-- The normal forms of some values. -/
def settleAll : List Json → List Json
  | [] => []
  | x :: xs => settle x :: settleAll xs

/-- The members with their values in normal form. -/
def settleMembers : List (String × Json) → List (String × Json)
  | [] => []
  | (n, v) :: ms => (n, settle v) :: settleMembers ms

end

end Json

end ContentStore
