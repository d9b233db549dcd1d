import ContentStore.Json.Basic
import ContentStore.Number.Decimal

/-!
# Writing JSON text

A value has two written forms: `compact` on one line without blanks, and
`pretty` with one element or member on a line, two blanks deeper than its
container.
-/

namespace ContentStore.Json

/-- The text of a number: whole numbers in plain digits, others with the
fewest digits that read back. -/
def Numeral.toText : Numeral → String
  | .whole n => toString n
  | .real x => x.toText

/-- Lower-case hexadecimal digit. -/
def hexDigit (n : Nat) : Char :=
  if n < 10 then Char.ofNat (48 + n) else Char.ofNat (87 + n)

/-- A character inside quotes: quote, backslash and control characters are
escaped. -/
def escape (c : Char) : List Char :=
  if c = '\x22' then ['\\', '\x22']
  else if c = '\\' then ['\\', '\\']
  else if c = '\x08' then ['\\', 'b']
  else if c = '\x0c' then ['\\', 'f']
  else if c = '\n' then ['\\', 'n']
  else if c = '\r' then ['\\', 'r']
  else if c = '\t' then ['\\', 't']
  else if c.toNat < 0x20 then
    ['\\', 'u', '0', '0', hexDigit (c.toNat / 16), hexDigit (c.toNat % 16)]
  else [c]

/-- A text between quotes. -/
def quote (s : String) : String :=
  String.ofList ('\x22' :: s.toList.flatMap escape ++ ['\x22'])

mutual

/-- The value on one line, without blanks. -/
def compact : Json → String
  | .null => "null"
  | .bool b => if b then "true" else "false"
  | .number n => n.toText
  | .string s => quote s
  | .array xs => "[" ++ ",".intercalate (compactAll xs) ++ "]"
  | .object ms => "\x7b" ++ ",".intercalate (compactMembers ms) ++ "\x7d"

def compactAll : List Json → List String
  | [] => []
  | x :: xs => compact x :: compactAll xs

def compactMembers : List (String × Json) → List String
  | [] => []
  | (n, v) :: ms => (quote n ++ ":" ++ compact v) :: compactMembers ms

end

/-- A new line, indented. -/
def newLine (depth : Nat) : String :=
  String.ofList ('\n' :: List.replicate (2 * depth) ' ')

/-- Lines between an opening and a closing bracket. -/
def bracketed (opening closing : String) (depth : Nat) (lines : List String) : String :=
  if lines.isEmpty then opening ++ closing
  else
    opening ++ newLine (depth + 1) ++ ("," ++ newLine (depth + 1)).intercalate lines ++
      newLine depth ++ closing

mutual

/-- The value over several lines, its container standing at `depth`. -/
def prettyAt (depth : Nat) : Json → String
  | .null => "null"
  | .bool b => if b then "true" else "false"
  | .number n => n.toText
  | .string s => quote s
  | .array xs => bracketed "[" "]" depth (prettyAll (depth + 1) xs)
  | .object ms => bracketed "\x7b" "\x7d" depth (prettyMembers (depth + 1) ms)

def prettyAll (depth : Nat) : List Json → List String
  | [] => []
  | x :: xs => prettyAt depth x :: prettyAll depth xs

def prettyMembers (depth : Nat) : List (String × Json) → List String
  | [] => []
  | (n, v) :: ms => (quote n ++ ": " ++ prettyAt depth v) :: prettyMembers depth ms

end

/-- The value over several lines. -/
def pretty (j : Json) : String := prettyAt 0 j

end ContentStore.Json
