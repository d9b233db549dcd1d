import ContentStore.Json.Printer
import ContentStore.Yaml.Document

/-!
# Writing YAML text

A value is written in block style: an entry of a mapping and an element of a
sequence each begin a line, and nested ones stand two columns further in,
except that the elements of a sequence stand right below its key.  Texts are
written plain where they read back as themselves, and otherwise in the first
style that can hold them: lines of their own (`literal`), single quotes, or
double quotes, which can hold everything.
-/

namespace ContentStore.Yaml

/-- How a text is written. -/
inductive Style where
  | plain | single | double | literal
  deriving DecidableEq, Repr

/-! ## What a style can hold -/

/-- Characters that need no escape; a tab is not one of them. -/
def isPrintable (c : Char) : Bool :=
  isAllowed c && c != '\t' && c != '\r' && c != '\x85'

/-- The text ends here, or a blank or the end of a line follows. -/
def isGap (cs : List Char) : Bool := cs.head?.all fun c => isBlank c || isBreak c

/-- The beginning of the text is a mark of YAML. -/
def beginsMark (cs : List Char) : Bool :=
  match cs with
  | [] => false
  | c :: rest =>
    isIndicator c || ((c == '-' || c == '?') && isGap rest) ||
      cs.take 3 == ['-', '-', '-'] || cs.take 3 == ['.', '.', '.']

/-- A colon in front of a gap, or a number sign after one, is a mark of YAML
anywhere. -/
def holdsMark (afterGap : Bool) : List Char → Bool
  | [] => false
  | c :: rest =>
    (c == ':' && isGap rest) || (c == '#' && afterGap) || holdsMark (isBlank c || isBreak c) rest

/-- Two characters of the given classes stand side by side. -/
def holdsPair (p q : Char → Bool) : List Char → Bool
  | a :: b :: rest => (p a && q b) || holdsPair p q (b :: rest)
  | _ => false

def isSpace (c : Char) : Bool := c == ' '

/-- A text that cannot be written without escapes. -/
def needsEscapes (cs : List Char) : Bool :=
  !cs.all isPrintable || holdsPair isSpace isBreak cs

/-- Blanks at the beginning of a line would be lost, except in lines of their
own. -/
def allowsSingle (cs : List Char) : Bool := !needsEscapes cs && !holdsPair isBreak isSpace cs

/-- A plain text is one line without blanks around it and without marks. -/
def allowsPlain (cs : List Char) : Bool :=
  allowsSingle cs && !cs.any isBreak && !cs.head?.any isSpace && !cs.getLast?.any isSpace &&
    !beginsMark cs && !holdsMark true cs

/-- Lines of their own hold what needs no escapes, up to blanks at the end. -/
def allowsLiteral (cs : List Char) : Bool :=
  !cs.isEmpty && !needsEscapes cs && !cs.getLast?.any isSpace

/-- Written plain, the text reads back as a text. -/
def readsAsText (s : String) : Bool :=
  match Node.plainToJson? s with
  | some (.string _) => !isPadded s.toList
  | _ => false

/-- The style of a text.  A key stands on one line. -/
def Style.of (asKey : Bool) (s : String) : Style :=
  let cs := s.toList
  if cs.contains '\n' then if allowsLiteral cs && !asKey then .literal else .double
  else if asKey && cs.any isBreak then .double
  else if readsAsText s && allowsPlain cs then .plain
  else if allowsSingle cs then .single
  else .double

/-! ## Texts -/

/-- Upper-case hexadecimal digits, so many of them. -/
def hexDigits : Nat → Nat → List Char
  | 0, _ => []
  | k + 1, n => hexDigits k (n / 16) ++ [(Json.hexDigit (n % 16)).toUpper]

/-- The letter of the short escape of a character. -/
def shortEscape? (c : Char) : Option Char :=
  ((escapes.filter fun e => e.1 != '\t' && e.1 != ' ' && e.1 != '/').find? fun e => e.2 == c).map
    Prod.fst

/-- A character between double quotes. -/
def escape (c : Char) : List Char :=
  if isPrintable c && !isBreak c && c != '\x22' && c != '\\' then [c]
  else match shortEscape? c with
    | some x => ['\\', x]
    | none =>
      let n := c.toNat
      if n ≤ 0xFF then '\\' :: 'x' :: hexDigits 2 n
      else if n ≤ 0xFFFF then '\\' :: 'u' :: hexDigits 4 n
      else '\\' :: 'U' :: hexDigits 8 n

/-- Blanks in front of a line. -/
def spaces (column : Nat) : List Char := List.replicate column ' '

/-- Moves the lines of a text to a column, empty ones excepted.  The first
character begins a line if `fresh` is set. -/
def indentLines (column : Nat) : Bool → List Char → List Char
  | _, [] => []
  | fresh, c :: cs =>
    if isBreak c then c :: indentLines column true cs
    else if fresh then spaces column ++ c :: indentLines column false cs
    else c :: indentLines column false cs

/-- What the head of a text in lines says of its end: nothing if one line ends
there. -/
def chompingSign (cs : List Char) : List Char :=
  match cs.reverse with
  | [] => ['-']
  | [c] => if isBreak c then ['+'] else ['-']
  | c :: d :: _ => if !isBreak c then ['-'] else if isBreak d then ['+'] else []

/-- A text in lines of its own, with its head.  The width of its indentation is
told when its first line does not show it. -/
def literalText (column : Nat) (cs : List Char) : List Char :=
  '|' :: (if cs.head?.any fun c => isSpace c || isBreak c then ['2'] else []) ++
    chompingSign cs ++ '\n' :: indentLines column true cs

/-- A text in the given style; the lines after its first one stand at a
column. -/
def Style.write (column : Nat) (cs : List Char) : Style → List Char
  | plain => cs
  | single => '\'' :: indentLines column false
      (cs.flatMap (fun c => if c = '\'' then ['\'', '\''] else [c]) ++ ['\''])
  | double => '\x22' :: cs.flatMap escape ++ ['\x22']
  | literal => literalText column cs

/-- A text as a key. -/
def keyText (column : Nat) (s : String) : List Char := (Style.of true s).write column s.toList

/-- A text as a value. -/
def valueText (column : Nat) (s : String) : List Char := (Style.of false s).write column s.toList

/-! ## Values -/

/-- Ends the line, if it is not ended yet. -/
def endLine (cs : List Char) : List Char := if cs.getLast?.any isBreak then cs else cs ++ ['\n']

/-- Pieces that each begin a line at a column, where the first one stands
already. -/
def stack (column : Nat) : List (List Char) → List Char
  | [] => []
  | [p] => p
  | p :: ps => p ++ spaces column ++ stack column ps

/-- What stands between a key at a column and its value. -/
def afterKey (column : Nat) : Json → List Char
  | .array (_ :: _) => '\n' :: spaces column
  | .object (_ :: _) => '\n' :: spaces (column + 2)
  | _ => [' ']

/-- The column of the value of a key. -/
def valueColumn (column : Nat) : Json → Nat
  | .array (_ :: _) => column
  | _ => column + 2

mutual

/-- A value that begins at a column, with the end of its last line. -/
def block (column : Nat) : Json → List Char
  | .null => "null\n".toList
  | .bool b => if b then "true\n".toList else "false\n".toList
  | .number n => endLine n.toText.toList
  | .string s => endLine (valueText column s)
  | .array xs => if xs.isEmpty then "[]\n".toList else stack column (elements column xs)
  | .object ms => if ms.isEmpty then "\x7b\x7d\n".toList else stack column (entries column ms)

def elements (column : Nat) : List Json → List (List Char)
  | [] => []
  | x :: xs => ('-' :: ' ' :: block (column + 2) x) :: elements column xs

def entries (column : Nat) : List (String × Json) → List (List Char)
  | [] => []
  | (k, v) :: ms =>
    (keyText (column + 2) k ++ ':' :: afterKey column v ++ block (valueColumn column v) v) ::
      entries column ms

end

/-- The document of a value. -/
def print (j : Json) : String :=
  match j with
  | .array _ | .object _ => String.ofList (block 0 j)
  | j => String.ofList (block 2 j)

end ContentStore.Yaml
