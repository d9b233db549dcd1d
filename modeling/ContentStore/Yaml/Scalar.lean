import ContentStore.Json.Reader
import ContentStore.Yaml.Cursor

/-!
# Scalars in YAML text

A scalar is written plain, between quotes, or as a block of lines.  In plain
and quoted scalars lines are folded: a single end of line stands for a blank,
and of several the first is dropped.
-/

namespace ContentStore.Yaml

/-- What stands between two pieces of a folded scalar: blanks within a line,
or ends of lines. -/
structure Gap where
  blanks : List Char
  first : Option (List Char)
  more : List Char

namespace Gap

def empty : Gap := ⟨[], none, []⟩

/-- Some line ends in the gap. -/
def hasBreak (g : Gap) : Bool := g.first.isSome

/-- What the gap stands for. -/
def text (g : Gap) : List Char :=
  match g.first with
  | none => g.blanks
  | some ['\n'] => if g.more.isEmpty then [' '] else g.more
  | some b => b ++ g.more

/-- Reads blanks and ends of lines.  A tab in the indentation of a plain scalar
is refused; it is one in front of the column `indent`. -/
def read (indent : Nat) : Nat → Gap → Cursor → Option (Gap × Cursor)
  | 0, g, c => some (g, c)
  | fuel + 1, g, c =>
    match c.peek 0 with
    | none => some (g, c)
    | some x =>
      if isBlank x then
        if !g.hasBreak then read indent fuel { g with blanks := g.blanks ++ [x] } (c.skip 1)
        else if x == '\t' && c.column < indent then none
        else read indent fuel g (c.skip 1)
      else if isBreak x then
        let (b, c) := c.readBreak
        match g.first with
        | none => read indent fuel ⟨[], some b, g.more⟩ c
        | some _ => read indent fuel { g with more := g.more ++ b } c
      else some (g, c)

end Gap

/-- A scalar that was read, and where it ends. -/
structure ScalarRead where
  text : List Char
  /-- A line ended after the last character. -/
  endsLine : Bool
  cursor : Cursor

/-- Characters that end a plain scalar inside brackets. -/
def isFlowIndicator (x : Char) : Bool :=
  x == ',' || x == '[' || x == ']' || x == '\x7b' || x == '\x7d'

/-- Characters that no plain scalar begins with. -/
def isIndicator (c : Char) : Bool :=
  isFlowIndicator c || c == '#' || c == '&' || c == '*' || c == '!' || c == '|' || c == '>' ||
    c == '\'' || c == '\x22' || c == '%' || c == '@' || c == '\x60'

/-- The characters of a plain scalar up to a blank, and the rest; none where a
colon stands in front of a bracket. -/
def plainRun (flow : Bool) : List Char → Option (List Char)
  | [] => some []
  | x :: rest =>
    let endsHere := rest.head?.all fun y => isBlank y || isBreak y
    if isBlank x || isBreak x then some []
    else if flow && x == ':' && rest.head?.any (fun y => isFlowIndicator y || y == '?') then none
    else if (x == ':' && endsHere) || (flow && isFlowIndicator x) then some []
    else (plainRun flow rest).map (x :: ·)

/-- Reads the pieces of a plain scalar.  Outside of brackets, lines that are
indented less than `indent` do not belong to it. -/
def readPlain (flow : Bool) (indent : Nat) : Nat → List Char → Gap → Cursor → Option ScalarRead
  | 0, text, g, c => some ⟨text, g.hasBreak, c⟩
  | fuel + 1, text, g, c =>
    if c.isDocumentMarker || c.peek 0 == some '#' then some ⟨text, g.hasBreak, c⟩
    else match plainRun flow c.rest with
      | none => none
      | some [] => some ⟨text, g.hasBreak, c⟩
      | some piece =>
        let text := text ++ g.text ++ piece
        let c := c.skip piece.length
        match Gap.read indent (c.rest.length + 1) .empty c with
        | none => none
        | some (g, c') =>
          if c'.index = c.index || (!flow && c'.column < indent) then some ⟨text, g.hasBreak, c'⟩
          else readPlain flow indent fuel text g c'

/-- The characters that short escapes stand for. -/
def escapes : List (Char × Char) :=
  [('0', '\x00'), ('a', '\x07'), ('b', '\x08'), ('t', '\t'), ('\t', '\t'), ('n', '\n'),
    ('v', '\x0b'), ('f', '\x0c'), ('r', '\r'), ('e', '\x1b'), (' ', ' '), ('\x22', '\x22'),
    ('/', '/'), ('\\', '\\'), ('N', '\x85'), ('_', '\u00a0'), ('L', '\u2028'), ('P', '\u2029')]

/-- Number of digits after the letter of a numeric escape. -/
def escapeDigits : Char → Option Nat
  | 'x' => some 2
  | 'u' => some 4
  | 'U' => some 8
  | _ => none

/-- The number written by hexadecimal digits. -/
def hexNumber? (cs : List Char) : Option Nat :=
  cs.foldl (fun n c => n.bind fun n => (Json.hexValue? c).map (16 * n + ·)) (some 0)

/-- The character an escape stands for, and its length without the
backslash. -/
def readEscape (rest : List Char) : Option (Char × Nat) :=
  match rest with
  | [] => none
  | x :: rest =>
    match escapes.lookup x, escapeDigits x with
    | some y, _ => some (y, 1)
    | none, some n =>
      if rest.length < n then none
      else match hexNumber? (rest.take n) with
        | some v => if v.isValidChar then some (Char.ofNat v, n + 1) else none
        | none => none
    | none, none => none

/-- Reads a quoted scalar up to its closing quote. -/
def readQuoted (quote : Char) : Nat → List Char → Cursor → Option ScalarRead
  | 0, _, _ => none
  | fuel + 1, text, c =>
    if c.isDocumentMarker then none
    else match c.rest with
      | [] => none
      | x :: rest =>
        if x == quote then
          if quote == '\'' && rest.head? == some '\'' then
            readQuoted quote fuel (text ++ ['\'']) (c.skip 2)
          else some ⟨text, false, c.skip 1⟩
        else if x == '\\' && quote == '\x22' then
          if rest.head?.any isBreak then
            let (_, c) := (c.skip 1).readBreak
            match Gap.read 0 (c.rest.length + 1) ⟨[], some [], []⟩ c with
            | some (g, c) => readQuoted quote fuel (text ++ g.text) c
            | none => none
          else match readEscape rest with
            | some (y, n) => readQuoted quote fuel (text ++ [y]) (c.skip (n + 1))
            | none => none
        else if isBlank x || isBreak x then
          match Gap.read 0 (c.rest.length + 1) .empty c with
          | some (g, c) => readQuoted quote fuel (text ++ g.text) c
          | none => none
        else readQuoted quote fuel (text ++ [x]) (c.skip 1)

/-- What becomes of the ends of line after a block. -/
inductive Chomping where
  | strip | clip | keep
  deriving DecidableEq

/-- The sign that says what becomes of the ends of line after a block. -/
def chomping? : Char → Option Chomping
  | '+' => some .keep
  | '-' => some .strip
  | _ => none

/-- The head of a block after its indicator: a sign and a digit, each at most
once, and nothing else on the line but a comment. -/
def readBlockHead (c : Cursor) : Option (Chomping × Option Nat × Cursor) :=
  let digit? (c : Cursor) : Option Nat :=
    (c.peek 0).bind fun x => if x.isDigit then some (x.toNat - 48) else none
  let sign (c : Cursor) : Option Chomping × Cursor :=
    match (c.peek 0).bind chomping? with
    | some s => (some s, c.skip 1)
    | none => (none, c)
  let (early, c) := sign c
  let (digit, c) : Option Nat × Cursor := match digit? c with
    | some d => (some d, c.skip 1)
    | none => (none, c)
  let (late, c) := if early.isSome then (none, c) else sign c
  if digit = some 0 then none
  else
    let c := c.skipWhile isBlank
    let c := if c.peek 0 == some '#' then c.skipLine else c
    if (c.peek 0).all isBreak then some ((early.or late).getD .clip, digit, c.readBreak.2)
    else none

/-- Reads empty lines and the indentation after them.  `widest` is the widest
indentation seen; `none` as indentation means that it is not known yet. -/
def readBlockBreaks (indent : Option Nat) :
    Nat → List Char → Nat → Cursor → Option (List Char × Nat × Cursor)
  | 0, breaks, widest, c => some (breaks, widest, c)
  | fuel + 1, breaks, widest, c =>
    let spaces := (c.run (· == ' ')).length
    let c := c.skip (match indent with
      | some n => min spaces (n - c.column)
      | none => spaces)
    let widest := max widest c.column
    if c.peek 0 == some '\t' && indent.all (c.column < ·) then none
    else if (c.peek 0).any isBreak then
      let (b, c) := c.readBreak
      readBlockBreaks indent fuel (breaks ++ b) widest c
    else some (breaks, widest, c)

/-- The lines of a block so far. -/
structure Lines where
  text : List Char
  /-- The end of the last line. -/
  leading : List Char
  /-- The empty lines after it. -/
  trailing : List Char
  /-- The last line begins with a blank. -/
  blank : Bool

namespace Lines

/-- What stands between the lines so far and the next one: a folded end of
line unless one of the two lines begins with a blank. -/
def glue (l : Lines) (literal blank : Bool) : List Char :=
  if !literal && l.leading == ['\n'] && !l.blank && !blank then
    if l.trailing.isEmpty then [' '] else l.trailing
  else l.leading ++ l.trailing

/-- The text of the block. -/
def finish (l : Lines) : Chomping → List Char
  | .strip => l.text
  | .clip => l.text ++ l.leading
  | .keep => l.text ++ l.leading ++ l.trailing

end Lines

/-- Reads the lines of a block. -/
def readLines (literal : Bool) (indent : Nat) : Nat → Lines → Cursor → Option (Lines × Cursor)
  | 0, l, c => some (l, c)
  | fuel + 1, l, c =>
    if c.column ≠ indent || c.rest.isEmpty then some (l, c)
    else
      let blank := (c.peek 0).any isBlank
      let line := c.run fun x => !isBreak x
      let (b, c') := (c.skip line.length).readBreak
      match readBlockBreaks (some indent) (c'.rest.length + 1) [] 0 c' with
      | none => none
      | some (breaks, _, c') =>
        readLines literal indent fuel ⟨l.text ++ l.glue literal blank ++ line, b, breaks, blank⟩ c'

/-- Reads a block after its indicator.  `parent` is the indentation of what the
block belongs to. -/
def readBlock (literal : Bool) (parent : Int) (c : Cursor) : Option ScalarRead := do
  let (chomping, digit, c) ← readBlockHead c
  let given := digit.map fun d => (if 0 ≤ parent then parent.toNat else 0) + d
  let (breaks, widest, c) ← readBlockBreaks given (c.rest.length + 1) [] 0 c
  let indent := given.getD (max (max widest (parent + 1).toNat) 1)
  let (l, c) ← readLines literal indent (c.rest.length + 1) ⟨[], [], breaks, false⟩ c
  return ⟨l.finish chomping, false, c⟩

end ContentStore.Yaml
