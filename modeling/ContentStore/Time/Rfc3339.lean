import ContentStore.Json.Record
import ContentStore.Text.Blank
import ContentStore.Time.Instant

/-!
# Instants as text

Instants are written by RFC 3339 in universal time.  There are two readers.
`read?` takes the strict form with a year of four digits.  `readLoose?` also
takes longer years with a sign, blanks between the parts and `UTC` for the
offset; it reads back every instant that `write` writes.  `readDay?` takes a
day alone.
-/

namespace ContentStore.Time

open Text (isBlank dropBlanks)

namespace Rfc3339

/-- A number of at least `low` and at most `high` decimal digits. -/
def digits? (low high : Nat) (cs : List Char) : Option (Nat × List Char) :=
  let ds := (cs.take high).takeWhile Char.isDigit
  if ds.length < low then none
  else some (ds.foldl (fun n c => n * 10 + (c.toNat - 48)) 0, cs.drop ds.length)

/-- One given character. -/
def char? (c : Char) : List Char → Option (List Char)
  | d :: cs => if c = d then some cs else none
  | [] => none

/-- Up to nine decimal places as nanoseconds; further places are skipped. -/
def places? (cs : List Char) : Option (Nat × List Char) := do
  let (n, rest) ← digits? 1 9 cs
  return (n * Nat.pow 10 (9 - (cs.length - rest.length)), rest.dropWhile Char.isDigit)

/-- The decimal places after a point, if there is one. -/
def fraction? : List Char → Option (Nat × List Char)
  | '.' :: cs => places? cs
  | cs => some (0, cs)

/-- An offset from universal time in seconds: `Z`, or a sign with hours and
minutes.  `separator` reads what stands between the two. -/
def offset? (separator : List Char → Option (List Char)) (cs : List Char) :
    Option (Int × List Char) :=
  match cs with
  | [] => none
  | c :: rest =>
    if c = 'Z' ∨ c = 'z' then some (0, rest)
    else if c = '+' ∨ c = '-' ∨ c = '\u2212' then do
      let (hours, rest) ← digits? 2 2 rest
      let rest ← separator rest
      let (minutes, rest) ← digits? 2 2 rest
      let size : Int := hours * 3600 + minutes * 60
      if 60 ≤ minutes then none
      else some (if c = '+' then size else -size, rest)
    else none

/-- Colons and blanks between the hours and minutes of an offset. -/
def looseSeparator (cs : List Char) : Option (List Char) :=
  some (cs.dropWhile fun c => c == ':' || isBlank c)

/-- The instant of a local date and time at an offset.  Second 60 is the leap
second after second 59. -/
def instant? (date : Date) (hour minute sec nanos : Nat) (offset : Int) : Option Instant :=
  if date.isValid ∧ hour < 24 ∧ minute < 60 ∧ sec ≤ 60 ∧ -86400 < offset ∧ offset < 86400 then
    let leap := sec = 60
    let clock : Nat := hour * 3600 + minute * 60 + (if leap then 59 else sec)
    let at_ : Instant := ⟨date.toDays * 86400 + clock - offset,
      if leap then nanos + Instant.second else nanos⟩
    let localDay : Instant := ⟨date.toDays * 86400, 0⟩
    if localDay.inRange ∧ at_.inRange then some at_ else none
  else none

/-- The letter or blank between date and time. -/
def middle? : List Char → Option (List Char)
  | c :: cs => if c = 'T' ∨ c = 't' ∨ c = ' ' then some cs else none
  | [] => none

/-- The strict form. -/
def read? (text : String) : Option Instant := do
  let (year, cs) ← digits? 4 4 text.toList
  let cs ← char? '-' cs
  let (month, cs) ← digits? 2 2 cs
  let cs ← char? '-' cs
  let (day, cs) ← digits? 2 2 cs
  let cs ← middle? cs
  let (hour, cs) ← digits? 2 2 cs
  let cs ← char? ':' cs
  let (minute, cs) ← digits? 2 2 cs
  let cs ← char? ':' cs
  let (sec, cs) ← digits? 2 2 cs
  let (nanos, cs) ← fraction? cs
  let (offset, cs) ← offset? (char? ':') cs
  if cs.isEmpty ∧ -86400 < offset ∧ offset < 86400 then
    instant? ⟨year, month, day⟩ hour minute sec nanos offset
  else none

/-- A year after blanks: with a sign of any length, without one at most four
digits. -/
def year? (cs : List Char) : Option (Int × List Char) :=
  match dropBlanks cs with
  | '-' :: cs => (digits? 1 cs.length cs).map fun r => (-(r.1 : Int), r.2)
  | '+' :: cs => (digits? 1 cs.length cs).map fun r => ((r.1 : Int), r.2)
  | cs => (digits? 1 4 cs).map fun r => ((r.1 : Int), r.2)

/-- One or two digits after blanks. -/
def short? (cs : List Char) : Option (Nat × List Char) := digits? 1 2 (dropBlanks cs)

/-- Year, month and day; `gap` reads what may stand before a hyphen. -/
def date? (gap : List Char → List Char) (cs : List Char) : Option (Date × List Char) := do
  let (year, cs) ← year? cs
  let cs ← char? '-' (gap cs)
  let (month, cs) ← short? cs
  let cs ← char? '-' (gap cs)
  let (day, cs) ← short? cs
  return (⟨year, month, day⟩, cs)

/-- The offset after blanks: also the letters of universal time. -/
def looseOffset? (cs : List Char) : Option (Int × List Char) :=
  match dropBlanks cs with
  | u :: t :: c :: rest =>
    if u.toLower = 'u' ∧ t.toLower = 't' ∧ c.toLower = 'c' then some (0, rest)
    else offset? looseSeparator (u :: t :: c :: rest)
  | cs => offset? looseSeparator cs

/-- The loose form. -/
def readLoose? (text : String) : Option Instant := do
  let (date, cs) ← date? dropBlanks text.toList
  let cs ← middle? cs
  let (hour, cs) ← short? cs
  let cs ← char? ':' (dropBlanks cs)
  let (minute, cs) ← short? cs
  let cs ← char? ':' (dropBlanks cs)
  let (sec, cs) ← short? cs
  let (nanos, cs) ← fraction? cs
  let (offset, cs) ← looseOffset? cs
  if (dropBlanks cs).isEmpty then instant? date hour minute sec nanos offset else none

/-- The beginning of a day given by its date alone. -/
def readDay? (text : String) : Option Instant := do
  let (date, cs) ← date? id text.toList
  if cs.isEmpty then instant? date 0 0 0 0 0 else none

/-- A number with at least `width` digits. -/
def padded (width n : Nat) : String :=
  let ds := Nat.toDigits 10 n
  String.ofList (List.replicate (width - ds.length) '0' ++ ds)

/-- Years from 0 to 9999 have four digits, others a sign and at least four. -/
def writeYear (year : Int) : String :=
  if 0 ≤ year ∧ year ≤ 9999 then padded 4 year.toNat
  else (if year < 0 then "-" else "+") ++ padded 4 year.natAbs

/-- Three, six or nine decimal places, as many as are needed, or none. -/
def writeFraction (nanos : Nat) : String :=
  if nanos = 0 then ""
  else if nanos % 1000000 = 0 then "." ++ padded 3 (nanos / 1000000)
  else if nanos % 1000 = 0 then "." ++ padded 6 (nanos / 1000)
  else "." ++ padded 9 nanos

/-- The instant in universal time, with the given text for the offset. -/
def writeWith (offset : String) (t : Instant) : String :=
  let date := Date.ofDays t.day
  let s := t.secondOfDay
  let leap := Instant.second ≤ t.nanos
  let sec := s % 60 + (if leap then 1 else 0)
  let nanos := if leap then t.nanos - Instant.second else t.nanos
  writeYear date.year ++ "-" ++ padded 2 date.month ++ "-" ++ padded 2 date.day ++ "T" ++
    padded 2 (s / 3600) ++ ":" ++ padded 2 (s / 60 % 60) ++ ":" ++ padded 2 sec ++
    writeFraction nanos ++ offset

/-- The form of records: universal time is written `Z`. -/
def write (t : Instant) : String := writeWith "Z" t

/-- The form of field values: universal time is an offset of zero. -/
def writeOffset (t : Instant) : String := writeWith "+00:00" t

end Rfc3339

instance : Record Instant :=
  ⟨fun t => .string (Rfc3339.write t), fun j => j.asString?.bind Rfc3339.readLoose?⟩

end ContentStore.Time
