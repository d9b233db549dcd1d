import ContentStore.Json.Basic
import ContentStore.Number.Decimal

/-!
# Reading JSON text

The reader accepts exactly the texts of the JSON grammar with these limits:
at most 127 containers stand inside one another, escapes form whole
characters, and no number is beyond the largest binary number of 64 bits.
Blanks around a value are skipped.  Each function returns what it read with
the rest of the text.
-/

namespace ContentStore.Json

open Number (Binary64)

/-- The four blanks of the grammar. -/
def isGap (c : Char) : Bool := c == ' ' || c == '\n' || c == '\t' || c == '\r'

def skipGaps (cs : List Char) : List Char := cs.dropWhile isGap

def digitValue (c : Char) : Nat := c.toNat - 48

/-- Value of a hexadecimal digit of either case. -/
def hexValue? (c : Char) : Option Nat :=
  if '0' ≤ c ∧ c ≤ '9' then some (c.toNat - 48)
  else if 'a' ≤ c ∧ c ≤ 'f' then some (c.toNat - 87)
  else if 'A' ≤ c ∧ c ≤ 'F' then some (c.toNat - 55)
  else none

/-- Four hexadecimal digits. -/
def readUnit : List Char → Option (Nat × List Char)
  | a :: b :: c :: d :: rest => do
    let a ← hexValue? a
    let b ← hexValue? b
    let c ← hexValue? c
    let d ← hexValue? d
    return (((a * 16 + b) * 16 + c) * 16 + d, rest)
  | _ => none

/-- The character of an escape that starts with `\u`: one unit, or two that
form a pair. -/
def readEscapedUnit (cs : List Char) : Option (Char × List Char) := do
  let (hi, rest) ← readUnit cs
  if 0xd800 ≤ hi ∧ hi ≤ 0xdbff then
    match rest with
    | '\\' :: 'u' :: rest =>
      let (lo, rest) ← readUnit rest
      if 0xdc00 ≤ lo ∧ lo ≤ 0xdfff then
        some (Char.ofNat (0x10000 + (hi - 0xd800) * 0x400 + (lo - 0xdc00)), rest)
      else none
    | _ => none
  else if 0xdc00 ≤ hi ∧ hi ≤ 0xdfff then none
  else some (Char.ofNat hi, rest)

/-- The characters of a string after its opening quote.  `done` holds the ones
read, last first. -/
def readChars : Nat → List Char → List Char → Option (String × List Char)
  | 0, _, _ => none
  | _, _, [] => none
  | fuel + 1, done, c :: rest =>
    if c = '\x22' then some (String.ofList done.reverse, rest)
    else if c = '\\' then
      match rest with
      | [] => none
      | 'u' :: rest => do
        let (c, rest) ← readEscapedUnit rest
        readChars fuel (c :: done) rest
      | e :: rest =>
        let plain? : Option Char :=
          if e = '\x22' ∨ e = '\\' ∨ e = '/' then some e
          else if e = 'b' then some '\x08'
          else if e = 'f' then some '\x0c'
          else if e = 'n' then some '\n'
          else if e = 'r' then some '\r'
          else if e = 't' then some '\t'
          else none
        match plain? with
        | some c => readChars fuel (c :: done) rest
        | none => none
    else if c.toNat < 0x20 then none
    else readChars fuel (c :: done) rest

/-- Digits added to a number while it fits a 64-bit word.  The result is the
number, the count of digits added, and the text from the first digit that does
not fit or is none. -/
def readWord : Nat → Nat → List Char → Nat × Nat × List Char
  | n, count, [] => (n, count, [])
  | n, count, c :: rest =>
    if c.isDigit ∧ n * 10 + digitValue c ≤ Number.largestNat64 then
      readWord (n * 10 + digitValue c) (count + 1) rest
    else (n, count, c :: rest)

def countDigits (cs : List Char) : Nat := (cs.takeWhile Char.isDigit).length

def skipDigits (cs : List Char) : List Char := cs.dropWhile Char.isDigit

/-- The number whose digits and power of ten are known. -/
def real? (negative : Bool) (digits : Nat) (exponent : Int) (rest : List Char) :
    Option (Numeral × List Char) :=
  (Binary64.ofDecimal negative digits exponent).map fun x => (.real x, rest)

/-- The exponent part, after its letter.  An exponent that does not fit 31 bits
makes the number zero when it is negative or the digits are zero. -/
def readExponent (negative : Bool) (digits : Nat) (scale : Int) (cs : List Char) :
    Option (Numeral × List Char) :=
  let (down, cs) := match cs with
    | '+' :: cs => (false, cs)
    | '-' :: cs => (true, cs)
    | cs => (false, cs)
  if countDigits cs = 0 then none
  else
    let e : Nat := (cs.takeWhile Char.isDigit).foldl (fun n c => n * 10 + digitValue c) 0
    let rest := skipDigits cs
    if Number.largestInt32 < e then
      if digits ≠ 0 ∧ !down then none else some (.real (Binary64.zero negative), rest)
    else real? negative digits (if down then scale - e else scale + e) rest

/-- What may follow the digits of a number that is not whole. -/
def readTail (negative : Bool) (digits : Nat) (scale : Int) (cs : List Char) :
    Option (Numeral × List Char) :=
  match cs with
  | 'e' :: cs => readExponent negative digits scale cs
  | 'E' :: cs => readExponent negative digits scale cs
  | cs => real? negative digits scale cs

/-- The decimal places, after the point.  Places that do not fit the word any
more are skipped. -/
def readPlaces (negative : Bool) (digits : Nat) (scale : Int) (cs : List Char) :
    Option (Numeral × List Char) :=
  let (n, count, rest) := readWord digits 0 cs
  if count = 0 ∧ countDigits rest = 0 then none
  else readTail negative n (scale - count) (skipDigits rest)

/-- A number without its sign.  Whole numbers beyond the words become binary
numbers: the digits that do not fit only count towards the power of ten.  Minus
zero has no whole form. -/
def readUnsigned (negative : Bool) (cs : List Char) : Option (Numeral × List Char) :=
  match cs with
  | [] => none
  | c :: rest =>
    if !c.isDigit then none
    else if c = '0' ∧ countDigits rest ≠ 0 then none
    else
      let (n, _, rest) := readWord 0 0 cs
      let extra := countDigits rest
      let rest := skipDigits rest
      match rest with
      | '.' :: places => readPlaces negative n extra places
      | 'e' :: rest => readExponent negative n extra rest
      | 'E' :: rest => readExponent negative n extra rest
      | _ =>
        if extra ≠ 0 then real? negative n extra rest
        else if !negative then some (.whole n, rest)
        else if n = 0 ∨ -(n : Int) < Number.leastInt64 then real? true n 0 rest
        else some (.whole (-n), rest)

def readNumber : List Char → Option (Numeral × List Char)
  | '-' :: cs => readUnsigned true cs
  | cs => readUnsigned false cs

/-- A word of the grammar. -/
def readWordOf (word : List Char) (value : Json) (cs : List Char) :
    Option (Json × List Char) :=
  if word.isPrefixOf cs then some (value, cs.drop word.length) else none

mutual

/-- A value.  `depth` is the number of containers that may still be opened. -/
def readValue : Nat → Nat → List Char → Option (Json × List Char)
  | 0, _, _ => none
  | fuel + 1, depth, cs =>
    match skipGaps cs with
    | [] => none
    | c :: rest =>
      if c = '\x22' then (readChars (rest.length + 1) [] rest).map fun r => (.string r.1, r.2)
      else if c = '[' then
        if depth = 0 then none
        else match skipGaps rest with
          | ']' :: rest => some (.array [], rest)
          | rest => (readElements fuel (depth - 1) [] rest).map fun r => (.array r.1, r.2)
      else if c = '\x7b' then
        if depth = 0 then none
        else match skipGaps rest with
          | '\x7d' :: rest => some (.object [], rest)
          | rest => (readMembers fuel (depth - 1) [] rest).map fun r => (.object r.1, r.2)
      else if c = 't' then readWordOf ['t', 'r', 'u', 'e'] (.bool true) (c :: rest)
      else if c = 'f' then readWordOf ['f', 'a', 'l', 's', 'e'] (.bool false) (c :: rest)
      else if c = 'n' then readWordOf ['n', 'u', 'l', 'l'] .null (c :: rest)
      else (readNumber (c :: rest)).map fun r => (.number r.1, r.2)

/-- The elements of an array up to its end; `done` holds the ones read, last
first. -/
def readElements : Nat → Nat → List Json → List Char → Option (List Json × List Char)
  | 0, _, _, _ => none
  | fuel + 1, depth, done, cs =>
    match readValue fuel depth cs with
    | none => none
    | some (x, rest) =>
      match skipGaps rest with
      | ',' :: rest => readElements fuel depth (x :: done) rest
      | ']' :: rest => some ((x :: done).reverse, rest)
      | _ => none

/-- The members of an object up to its end; `done` holds the ones read, last
first. -/
def readMembers : Nat → Nat → List (String × Json) → List Char →
    Option (List (String × Json) × List Char)
  | 0, _, _, _ => none
  | fuel + 1, depth, done, cs =>
    match skipGaps cs with
    | '\x22' :: rest =>
      match readChars (rest.length + 1) [] rest with
      | none => none
      | some (name, rest) =>
        match skipGaps rest with
        | ':' :: rest =>
          match readValue fuel depth rest with
          | none => none
          | some (value, rest) =>
            match skipGaps rest with
            | ',' :: rest => readMembers fuel depth ((name, value) :: done) rest
            | '\x7d' :: rest => some (((name, value) :: done).reverse, rest)
            | _ => none
        | _ => none
    | _ => none

end

/-- The value of a whole text, members as written. -/
def read? (text : String) : Option Json :=
  let cs := text.toList
  match readValue (cs.length + 1) 127 cs with
  | some (j, rest) => if (skipGaps rest).isEmpty then some j else none
  | none => none

/-- The value of a whole text in normal form. -/
def parse? (text : String) : Option Json := (read? text).map settle

end ContentStore.Json
