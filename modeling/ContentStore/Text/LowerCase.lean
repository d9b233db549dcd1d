import ContentStore.Text.LowerCase.Table

/-!
# Lower case

Keyword search ignores case by comparing lower-case texts.  Lower case is
the full Unicode mapping: one character to one character for most, two for
the dotted capital I, and for the capital sigma a choice between the two
small sigmas that depends on its neighbours.
-/

namespace ContentStore.Text

/-- `n` lies in one of the closed ranges. -/
def inRanges (ranges : List (Nat × Nat)) (n : Nat) : Bool :=
  ranges.any fun r => decide (r.1 ≤ n ∧ n ≤ r.2)

namespace LowerCase

/-- The run that moves `n`, if `n` has a lower-case form of its own. -/
def runOf? (n : Nat) : Option Run :=
  runs.find? fun r => decide (r.first ≤ n ∧ n ≤ r.last) && (n - r.first) % r.stride == 0

/-- Lower case of one character, taken out of its context.  Characters
without a lower-case form stay as they are. -/
def ofChar (c : Char) : List Char :=
  if c.toNat < 128 then [c.toLower]
  else if c.toNat = 0x130 then ['i', Char.ofNat 0x307]
  else match runOf? c.toNat with
    | some r => [Char.ofNat (Int.toNat (c.toNat + r.shift))]
    | none => [c]

/-- The nearest character that case rules do not look through is cased. -/
def nextIsCased (cs : List Char) : Bool :=
  match cs.find? fun c => !inRanges ignorable c.toNat with
  | some c => inRanges cased c.toNat
  | none => false

/-- The small sigma at the end of a word: a cased character stands before
the capital (`before` is read backwards) and none after it. -/
def sigma (before after : List Char) : Char :=
  if nextIsCased before && !nextIsCased after then Char.ofNat 0x3c2 else Char.ofNat 0x3c3

/-- Lower case of `after`, which follows the characters `before`, nearest
first. -/
def walk (before : List Char) : List Char → List Char
  | [] => []
  | c :: after =>
    (if c.toNat = 0x3a3 then [sigma before after] else ofChar c) ++ walk (c :: before) after

end LowerCase

/-- The lower-case form of a text. -/
def lowerCase (s : String) : String :=
  String.ofList (LowerCase.walk [] s.toList)

end ContentStore.Text
