import ContentStore.Yaml.Scalar

/-!
# Tokens of YAML text

Tokens are marks, scalars, and the beginnings and ends of blocks, which
indentation decides.  That something was a key shows only when a colon follows
it, so the place where a key could begin is remembered, and the marks for it
are put in front of it later.
-/

namespace ContentStore.Yaml

/-- A token. -/
inductive Token where
  | directive | documentStart | documentEnd
  | blockSequence | blockMapping | blockEnd
  | flowSequence | flowSequenceEnd | flowMapping | flowMappingEnd
  | entry | flowEntry | key | value
  | anchor (name : String)
  | alias (name : String)
  | tag (name : String)
  | scalar (text : String) (plain : Bool)
  deriving DecidableEq

/-- A place where a key could have begun: the number of tokens in front of it,
and where it stands.  It is needed when nothing else can stand there. -/
structure KeyPlace where
  tokens : Nat
  index : Nat
  line : Nat
  column : Nat
  needed : Bool

/-- Tokens read so far, and what the next ones depend on. -/
structure Lexer where
  cursor : Cursor
  tokens : Array Token
  /-- Columns of the open blocks, innermost first. -/
  indents : List Nat
  /-- Possible keys: one place for each open bracket, innermost first, and one
  for the block around them. -/
  keys : List (Option KeyPlace)
  /-- A key may begin here. -/
  keyAllowed : Bool

namespace Lexer

def start (text : List Char) : Lexer := ⟨.start text, #[], [], [none], true⟩

/-- Some bracket is open. -/
def inFlow (l : Lexer) : Bool := 1 < l.keys.length

/-- Column of the innermost block; `-1` outside of all. -/
def indent (l : Lexer) : Int :=
  match l.indents with
  | [] => -1
  | n :: _ => n

def push (l : Lexer) (t : Token) : Lexer := { l with tokens := l.tokens.push t }

/-- Puts tokens in front of the one with that number. -/
def insert (l : Lexer) (n : Nat) (ts : Array Token) : Lexer :=
  { l with tokens := l.tokens.extract 0 n ++ ts ++ l.tokens.extract n l.tokens.size }

def allow (l : Lexer) (allowed : Bool) : Lexer := { l with keyAllowed := allowed }

def skip (l : Lexer) (n : Nat) : Lexer := { l with cursor := l.cursor.skip n }

/-- Forgets the possible key of the innermost bracket; a needed one cannot be
given up. -/
def dropKey (l : Lexer) : Option Lexer :=
  match l.keys with
  | some k :: ks => if k.needed then none else some { l with keys := none :: ks }
  | _ => some l

/-- Remembers that a key could begin here. -/
def markKey (l : Lexer) : Option Lexer :=
  if !l.keyAllowed then some l
  else do
    let l ← l.dropKey
    let c := l.cursor
    let k : KeyPlace := ⟨l.tokens.size, c.index, c.line, c.column,
      !l.inFlow && l.indent == (c.column : Int)⟩
    return { l with keys := some k :: l.keys.drop 1 }

/-- A key stands on one line, at most 1024 characters before its colon. -/
def isStale (l : Lexer) (k : KeyPlace) : Bool :=
  decide (k.line < l.cursor.line ∨ k.index + 1024 < l.cursor.index)

/-- Forgets possible keys that are too far back. -/
def dropStale (l : Lexer) : Option Lexer := do
  let keys ← l.keys.mapM fun k => match k with
    | some k => if l.isStale k then (if k.needed then none else some none) else some (some k)
    | none => some none
  return { l with keys }

/-- Closes the blocks that are indented more than a column. -/
def closeBlocks (l : Lexer) (column : Int) : Lexer :=
  if l.inFlow then l
  else
    let closed := l.indents.takeWhile fun (n : Nat) => decide (column < (n : Int))
    { l with
      indents := l.indents.drop closed.length
      tokens := closed.foldl (fun ts _ => ts.push .blockEnd) l.tokens }

/-- Opens a block at a column that is indented more than the one around it.
Its mark stands in front of the token with that number. -/
def openBlock (l : Lexer) (column number : Nat) (t : Token) : Lexer :=
  if l.inFlow || decide ((column : Int) ≤ l.indent) then l
  else { l.insert number #[t] with indents := column :: l.indents }

/-- Opens a block here, where a key has to be allowed. -/
def openHere (l : Lexer) (t : Token) : Option Lexer :=
  if l.inFlow then some l
  else if l.keyAllowed then some (l.openBlock l.cursor.column l.tokens.size t)
  else none

/-- Skips blanks, comments and ends of lines.  A tab does not indent a key. -/
def skipGaps : Nat → Lexer → Lexer
  | 0, l => l
  | fuel + 1, l =>
    let c := l.cursor.skipWhile fun x => x == ' ' || (x == '\t' && (l.inFlow || !l.keyAllowed))
    let c := if c.peek 0 == some '#' then c.skipLine else c
    if (c.peek 0).any isBreak then
      skipGaps fuel { l with cursor := c.readBreak.2, keyAllowed := l.keyAllowed || !l.inFlow }
    else { l with cursor := c }

/-- A mark on its own line: all blocks end. -/
def marker (l : Lexer) (n : Nat) (t : Token) : Option Lexer := do
  let l ← (l.closeBlocks (-1)).dropKey
  return ((l.allow false).skip n).push t

/-- Only the directive with the version of the format is understood. -/
def directive (l : Lexer) : Option Lexer := do
  let line := String.ofList (l.cursor.run fun x => !isBreak x)
  let words := (line.splitOn " ").filter (· != "")
  match words with
  | "%YAML" :: version :: rest =>
    if (version == "1.1" || version == "1.2") && rest.head?.all (·.startsWith "#") then
      l.marker line.length .directive
    else none
  | _ => none

/-- An opening bracket. -/
def openFlow (l : Lexer) (t : Token) : Option Lexer := do
  let l ← l.markKey
  return (({ l with keys := none :: l.keys }.allow true).skip 1).push t

/-- A closing bracket. -/
def closeFlow (l : Lexer) (t : Token) : Option Lexer := do
  let l ← l.dropKey
  let keys := if l.inFlow then l.keys.drop 1 else l.keys
  return (({ l with keys }.allow false).skip 1).push t

/-- A comma between brackets. -/
def flowEntry (l : Lexer) : Option Lexer := do
  let l ← l.dropKey
  return ((l.allow true).skip 1).push .flowEntry

/-- A hyphen in front of an element. -/
def entry (l : Lexer) : Option Lexer := do
  let l ← (← l.openHere .blockSequence).dropKey
  return ((l.allow true).skip 1).push .entry

/-- A question mark in front of a key. -/
def key (l : Lexer) : Option Lexer := do
  let l ← (← l.openHere .blockMapping).dropKey
  return ((l.allow !l.inFlow).skip 1).push .key

/-- A colon in front of a value.  If a key could have begun, it did. -/
def value (l : Lexer) : Option Lexer :=
  match l.keys with
  | some k :: ks =>
    let l := { l.insert k.tokens #[.key] with keys := none :: ks }
    some (((l.openBlock k.column k.tokens .blockMapping).allow false).skip 1 |>.push .value)
  | _ => do
    let l ← l.openHere .blockMapping
    return ((l.allow !l.inFlow).skip 1).push .value

/-- Characters of names of anchors. -/
def isNameChar (x : Char) : Bool := x.isAlphanum || x == '_' || x == '-'

/-- A name after its indicator. -/
def name (l : Lexer) (t : String → Token) : Option Lexer := do
  let l ← l.markKey
  let c := l.cursor.skip 1
  let name := c.run isNameChar
  let c := c.skip name.length
  if name.isEmpty || !(c.isGapAt 0 || (c.peek 0).any "?:,]\x7d%@\x60".toList.contains) then none
  else return { l.allow false with cursor := c }.push (t (String.ofList name))

/-- Characters of tags. -/
def isTagChar (x : Char) : Bool := isNameChar x || ";/?:@&=+$.%!~*'()".toList.contains x

/-- A tag: written out between angle brackets, or short with one or two
exclamation marks. -/
def tag (l : Lexer) : Option Lexer := do
  let l ← l.markKey
  let c := l.cursor.skip 1
  let (name, c) ← match c.rest with
    | '<' :: rest =>
      let name := rest.takeWhile fun x => isTagChar x || x == ',' || x == '[' || x == ']'
      if name.isEmpty || rest[name.length]? ≠ some '>' then none
      else some (name, c.skip (name.length + 2))
    | '!' :: rest =>
      let name := rest.takeWhile isTagChar
      if name.isEmpty then none
      else some ("tag:yaml.org,2002:".toList ++ name, c.skip (name.length + 1))
    | rest =>
      let name := rest.takeWhile isTagChar
      if name.contains '!' then none else some ('!' :: name, c.skip name.length)
  if c.isGapAt 0 || (l.inFlow && c.peek 0 == some ',') then
    return { l.allow false with cursor := c }.push (.tag (String.ofList name))
  else none

/-- A block scalar after its indicator. -/
def block (l : Lexer) (literal : Bool) : Option Lexer := do
  let l ← l.dropKey
  let r ← readBlock literal l.indent (l.cursor.skip 1)
  return { l.allow true with cursor := r.cursor }.push (.scalar (String.ofList r.text) false)

/-- A quoted scalar. -/
def quoted (l : Lexer) (quote : Char) : Option Lexer := do
  let l ← l.markKey
  let c := l.cursor.skip 1
  let r ← readQuoted quote (c.rest.length + 1) [] c
  return { l.allow false with cursor := r.cursor }.push (.scalar (String.ofList r.text) false)

/-- A plain scalar. -/
def plain (l : Lexer) : Option Lexer := do
  let l ← l.markKey
  let c := l.cursor
  let r ← readPlain l.inFlow (l.indent + 1).toNat (c.rest.length + 1) [] .empty c
  return { l.allow r.endsLine with cursor := r.cursor }.push (.scalar (String.ofList r.text) true)

/-- A plain scalar may begin with the character that stands here. -/
def beginsPlain (l : Lexer) (x : Char) : Bool :=
  let gapNext := l.cursor.isGapAt 1
  if x == '-' then !(l.cursor.peek 1).all isBlank
  else if x == '?' || x == ':' then !l.inFlow && !gapNext
  else !isIndicator x

/-- Reads the token that begins here. -/
def token (l : Lexer) (x : Char) : Option Lexer :=
  let gapNext := l.cursor.isGapAt 1
  if l.cursor.column == 0 && x == '%' then l.directive
  else if l.cursor.isMarker '-' then l.marker 3 .documentStart
  else if l.cursor.isMarker '.' then l.marker 3 .documentEnd
  else if x == '[' then l.openFlow .flowSequence
  else if x == '\x7b' then l.openFlow .flowMapping
  else if x == ']' then l.closeFlow .flowSequenceEnd
  else if x == '\x7d' then l.closeFlow .flowMappingEnd
  else if x == ',' && l.inFlow then l.flowEntry
  else if x == '-' && gapNext then l.entry
  else if x == '?' && (l.inFlow || gapNext) then l.key
  else if x == ':' && (l.inFlow || gapNext) then l.value
  else if x == '*' then l.name .alias
  else if x == '&' then l.name .anchor
  else if x == '!' then l.tag
  else if x == '|' && !l.inFlow then l.block true
  else if x == '>' && !l.inFlow then l.block false
  else if x == '\'' || x == '\x22' then l.quoted x
  else if l.beginsPlain x then l.plain
  else none

/-- Reads tokens to the end of the text. -/
def run : Nat → Lexer → Option Lexer
  | 0, _ => none
  | fuel + 1, l => do
    let l ← (l.skipGaps (l.cursor.rest.length + 1)).dropStale
    match l.cursor.rest with
    | [] => (l.closeBlocks (-1)).dropKey
    | x :: _ => run fuel (← (l.closeBlocks l.cursor.column).token x)

end Lexer

/-- The tokens of a text.  A mark for the order of bytes may stand in front. -/
def tokens? (text : String) : Option (List Token) :=
  let cs := match text.toList with
    | '\uFEFF' :: cs => cs
    | cs => cs
  if cs.all isAllowed then
    ((Lexer.start cs).run (cs.length + 2)).map fun l => l.tokens.toList
  else none

end ContentStore.Yaml
