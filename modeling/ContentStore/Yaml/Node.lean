import ContentStore.Yaml.Token

/-!
# Nodes of YAML text

A document is a tree of scalars, sequences and mappings.  An anchor names a
node for aliases further on, which stand for the same node again.
-/

namespace ContentStore.Yaml

/-- A node with its tag, if it has one. -/
inductive Node where
  | scalar (text : String) (plain : Bool) (tag : Option String)
  | sequence (elements : List Node) (tag : Option String)
  | mapping (entries : List (Node × Node)) (tag : Option String)

/-- The tokens still to be read, and the nodes named so far. -/
structure Reader where
  tokens : List Token
  anchors : List (String × Node)

namespace Reader

/-- Without the first token. -/
def next (r : Reader) : Reader := { r with tokens := r.tokens.drop 1 }

/-- The first token is one of those given, or there is none. -/
def isAt (r : Reader) (ts : List Token) : Bool := r.tokens.head?.all ts.contains

end Reader

/-- What nothing stands for. -/
def Node.nothing : Node := .scalar "" true none

/-- Names and tags in front of a node. -/
structure Properties where
  anchor : Option String
  tag : Option String

/-- Reads an anchor and a tag, in either order. -/
def readProperties (r : Reader) : Properties × Reader :=
  match r.tokens with
  | .anchor a :: .tag t :: _ => (⟨some a, some t⟩, r.next.next)
  | .tag t :: .anchor a :: _ => (⟨some a, some t⟩, r.next.next)
  | .anchor a :: _ => (⟨some a, none⟩, r.next)
  | .tag t :: _ => (⟨none, some t⟩, r.next)
  | _ => (⟨none, none⟩, r)

mutual

/-- Reads a node.  Outside of brackets it may be a block; as the value of a key
it may be a sequence that is not indented. -/
def readNode : Nat → Bool → Bool → Reader → Option (Node × Reader)
  | 0, _, _, _ => none
  | fuel + 1, block, unindented, r =>
    match r.tokens with
    | .alias name :: _ => (r.anchors.lookup name).map fun n => (n, r.next)
    | _ => do
      let (ps, r) := readProperties r
      let (n, r) ← readContent fuel block unindented ps r
      match ps.anchor with
      | some a => return (n, { r with anchors := (a, n) :: r.anchors })
      | none => return (n, r)

/-- Reads a node without its properties. -/
def readContent : Nat → Bool → Bool → Properties → Reader → Option (Node × Reader)
  | 0, _, _, _, _ => none
  | fuel + 1, block, unindented, ps, r =>
    match r.tokens with
    | .scalar text plain :: _ => some (.scalar text plain ps.tag, r.next)
    | .flowSequence :: _ =>
      (readFlowElements fuel true r.next).map fun e => (.sequence e.1 ps.tag, e.2)
    | .flowMapping :: _ =>
      (readFlowEntries fuel true r.next).map fun e => (.mapping e.1 ps.tag, e.2)
    | t :: _ =>
      if t = .entry ∧ unindented then
        (readElements fuel false r).map fun e => (.sequence e.1 ps.tag, e.2)
      else if t = .blockSequence ∧ block then
        (readElements fuel true r.next).map fun e => (.sequence e.1 ps.tag, e.2)
      else if t = .blockMapping ∧ block then
        (readEntries fuel r.next).map fun e => (.mapping e.1 ps.tag, e.2)
      else if ps.anchor.isSome ∨ ps.tag.isSome then some (.scalar "" true ps.tag, r)
      else none
    | [] => if ps.anchor.isSome ∨ ps.tag.isSome then some (.scalar "" true ps.tag, r) else none

/-- Reads a node, unless one of the given tokens stands in its place. -/
def readUnless : Nat → Bool → Bool → List Token → Reader → Option (Node × Reader)
  | 0, _, _, _, _ => none
  | fuel + 1, block, unindented, ends, r =>
    if r.isAt ends then some (.nothing, r) else readNode fuel block unindented r

/-- Reads the elements of a block sequence.  One that is indented has a mark at
its end. -/
def readElements : Nat → Bool → Reader → Option (List Node × Reader)
  | 0, _, _ => none
  | fuel + 1, indented, r =>
    match r.tokens with
    | .entry :: _ => do
      let ends : List Token := if indented then [.entry, .blockEnd]
        else [.entry, .key, .value, .blockEnd]
      let (n, r) ← readUnless fuel true false ends r.next
      let (ns, r) ← readElements fuel indented r
      return (n :: ns, r)
    | .blockEnd :: _ => if indented then some ([], r.next) else some ([], r)
    | _ => if indented then none else some ([], r)

/-- Reads the entries of a block mapping. -/
def readEntries : Nat → Reader → Option (List (Node × Node) × Reader)
  | 0, _ => none
  | fuel + 1, r =>
    match r.tokens with
    | .key :: _ => do
      let ends : List Token := [.key, .value, .blockEnd]
      let (k, r) ← readUnless fuel true true ends r.next
      let (v, r) ← if r.isAt [.value] && !r.tokens.isEmpty then readUnless fuel true true ends r.next
        else some (.nothing, r)
      let (es, r) ← readEntries fuel r
      return ((k, v) :: es, r)
    | .blockEnd :: _ => some ([], r.next)
    | _ => none

/-- Reads a value inside brackets, which ends with a comma or the closing
bracket. -/
def readFlowValue : Nat → Token → Reader → Option (Node × Reader)
  | 0, _, _ => none
  | fuel + 1, closing, r =>
    match r.tokens with
    | .value :: _ => readUnless fuel false false [.flowEntry, closing] r.next
    | _ => some (.nothing, r)

/-- Reads the elements of a sequence in brackets.  A pair of key and value
stands for a mapping of that one entry. -/
def readFlowElements : Nat → Bool → Reader → Option (List Node × Reader)
  | 0, _, _ => none
  | fuel + 1, first, r =>
    match r.tokens, first with
    | .flowSequenceEnd :: _, _ => some ([], r.next)
    | .flowEntry :: _, false => readFlowElement fuel r.next
    | _, true => readFlowElement fuel r
    | _, false => none

/-- Reads an element of a sequence in brackets and those after it. -/
def readFlowElement : Nat → Reader → Option (List Node × Reader)
  | 0, _ => none
  | fuel + 1, r =>
    match r.tokens with
    | .flowSequenceEnd :: _ => some ([], r.next)
    | .key :: _ => do
      let (k, r) ← readUnless fuel false false [.value, .flowEntry, .flowSequenceEnd] r.next
      let (v, r) ← readFlowValue fuel .flowSequenceEnd r
      let (ns, r) ← readFlowElements fuel false r
      return (.mapping [(k, v)] none :: ns, r)
    | _ => do
      let (n, r) ← readNode fuel false false r
      let (ns, r) ← readFlowElements fuel false r
      return (n :: ns, r)

/-- Reads the entries of a mapping in brackets. -/
def readFlowEntries : Nat → Bool → Reader → Option (List (Node × Node) × Reader)
  | 0, _, _ => none
  | fuel + 1, first, r =>
    match r.tokens, first with
    | .flowMappingEnd :: _, _ => some ([], r.next)
    | .flowEntry :: _, false => readFlowMember fuel r.next
    | _, true => readFlowMember fuel r
    | _, false => none

/-- Reads an entry of a mapping in brackets and those after it.  A key may
stand alone. -/
def readFlowMember : Nat → Reader → Option (List (Node × Node) × Reader)
  | 0, _ => none
  | fuel + 1, r =>
    match r.tokens with
    | .flowMappingEnd :: _ => some ([], r.next)
    | .key :: _ => do
      let (k, r) ← readUnless fuel false false [.value, .flowEntry, .flowMappingEnd] r.next
      let (v, r) ← readFlowValue fuel .flowMappingEnd r
      let (es, r) ← readFlowEntries fuel false r
      return ((k, v) :: es, r)
    | _ => do
      let (k, r) ← readNode fuel false false r
      let (es, r) ← readFlowEntries fuel false r
      return ((k, .nothing) :: es, r)

end

/-- Reads the one document that the tokens hold. -/
def readDocument (tokens : List Token) : Option Node := do
  let afterDirectives := tokens.dropWhile (· == .directive)
  let fuel := 8 * tokens.length + 8
  let (n, r) ← match afterDirectives with
    | [] => if tokens.isEmpty then some (.nothing, ⟨[], []⟩) else none
    | .documentStart :: rest =>
      readUnless fuel true false [.directive, .documentStart, .documentEnd] ⟨rest, []⟩
    | rest => if rest.length = tokens.length then readNode fuel true false ⟨rest, []⟩ else none
  if r.tokens.all (· == .documentEnd) then return n else none

/-- The document that a text holds. -/
def Node.parse? (text : String) : Option Node := (tokens? text).bind readDocument

end ContentStore.Yaml
