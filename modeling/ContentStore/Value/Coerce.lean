import ContentStore.Value.Basic
import ContentStore.Value.Defect

/-!
# Values from raw input

Raw input is JSON.  Each kind says which JSON it takes: texts also take
numbers, by their written form; integers also take texts and numbers with a
point that are whole; truth values also take the two words; ids take texts
and cut off the blanks around them; dates take an instant or a day.
-/

namespace ContentStore

open Time (Instant)

/-- The characters of the name of an address scheme, after its first letter. -/
def isSchemeChar (c : Char) : Bool := c.isAlphanum || c == '+' || c == '.' || c == '-'

/-- An address: the name of a scheme, `://`, at least one character that is no
blank and ends no host, and no blank after it. -/
def isUrl (s : String) : Bool :=
  match s.toList with
  | [] => false
  | c :: cs =>
    c.isAlpha && match cs.dropWhile isSchemeChar with
      | ':' :: '/' :: '/' :: h :: rest =>
        !Text.isBlank h && h != '/' && h != '?' && h != '#' && rest.all fun c => !Text.isBlank c
      | _ => false

/-- Decimal digits with an optional sign, and nothing else. -/
def readInt? (s : String) : Option Int :=
  let digits? (cs : List Char) : Option Nat :=
    if !cs.isEmpty && cs.all Char.isDigit then
      some (cs.foldl (fun n c => n * 10 + (c.toNat - 48)) 0)
    else none
  match s.toList with
  | '-' :: cs => (digits? cs).map fun n => -(n : Int)
  | '+' :: cs => (digits? cs).map fun n => (n : Int)
  | cs => (digits? cs).map fun n => (n : Int)

/-- An instant from a text: the strict form of an instant, or a day. -/
def readInstant? (s : String) : Option Instant :=
  (Time.Rfc3339.read? s).or (Time.Rfc3339.readDay? s)

namespace Value

/-- The text of raw input: a text itself, or a number as it is written. -/
def rawText? : Json → Option String
  | .string s => some s
  | .number n => some n.toText
  | _ => none

/-- A truth value, or one of the two words for it. -/
def rawBool? : Json → Option Bool
  | .bool b => some b
  | .string s => if s = "true" then some true else if s = "false" then some false else none
  | _ => none

/-- An integer of 64 bits: a whole number, a number with a point that is whole
and smaller than `2 ^ 63`, or digits with blanks around them. -/
def rawInteger? : Json → Option Int
  | .number (.whole n) => if Number.isInt64 n then some n else none
  | .number (.real x) => x.toInt?.filter fun n => decide (n.natAbs ≤ Number.largestInt64)
  | .string s => (readInt? (Text.trim s)).filter Number.isInt64
  | _ => none

/-- An id: a text that is not blank. -/
def rawId? {k : IdKind} (raw : Json) : Option (Id k) := raw.asString?.bind Id.parse?

/-- The value of a kind that raw input stands for, if it stands for one. -/
def coerce? (kind : Kind) (raw : Json) : Option Value :=
  match kind with
  | .text => (rawText? raw).map .text
  | .textArea => (rawText? raw).map .textArea
  | .markdown => (rawText? raw).map .markdown
  | .select => (rawText? raw).map .select
  | .bool => (rawBool? raw).map .bool
  | .checkbox => (rawBool? raw).map .checkbox
  | .integer => (rawInteger? raw).map .integer
  | .url => (raw.asString?.filter isUrl).map .url
  | .dateTime => (raw.asString?.bind readInstant?).map .dateTime
  | .tag => (rawId? raw).map .tag
  | .asset => (rawId? raw).map .asset
  | .reference => (rawId? raw).map .reference
  | .group => (rawId? raw).map .group

/-- The value of a kind that raw input stands for. -/
def coerce (kind : Kind) (raw : Json) : Except ValueDefect Value :=
  match coerce? kind raw with
  | some v => .ok v
  | none => .error (.unreadable kind raw.typeName)

end Value

end ContentStore
