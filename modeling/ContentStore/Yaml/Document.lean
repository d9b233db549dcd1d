import ContentStore.Catalog.Document
import ContentStore.Yaml.Node
import ContentStore.Yaml.Resolution

/-!
# YAML as a document

What a declaration asks of YAML.  Where a text is asked for, any scalar will
do; truth values and numbers have to be plain.  Nothing at all stands for an
empty sequence or mapping.
-/

namespace ContentStore.Yaml

namespace Node

/-- Tag of the kind of value that is named. -/
def standardTag (kind : String) : String := "tag:yaml.org,2002:" ++ kind

/-- Nothing is written. -/
def isNothing : Node → Bool
  | scalar "" true _ => true
  | _ => false

/-- The text of a plain scalar. -/
def plain? : Node → Option String
  | scalar s true _ => some s
  | _ => none

/-- The text of any scalar. -/
def text? : Node → Option String
  | scalar s _ _ => some s
  | _ => none

/-- A plain scalar that is empty or a spelling of null. -/
def isAbsent : Node → Bool
  | scalar s true none => s == "" || isNull s
  | scalar s true (some t) => t == standardTag "null" && isNull s
  | _ => false

/-- A whole number of 64 bits with sign. -/
def int? (n : Node) : Option Int :=
  (n.plain?.bind readInt?).filter Number.isInt64

/-- A count of 64 bits. -/
def nat? (n : Node) : Option Nat :=
  (n.plain?.bind readNat?).filter fun i => decide (i ≤ Number.largestNat64)

/-- The name of a choice: a scalar, or a tag of one exclamation mark with
nothing behind it. -/
def choice? : Node → Option String
  | scalar s plain (some t) =>
    match t.toList with
    | '!' :: name =>
      if plain && (s == "" || isNull s) then
        some (String.ofList (if name.isEmpty then ['!'] else name))
      else none
    | _ => some s
  | scalar s _ none => some s
  | _ => none

def elements? : Node → Option (List Node)
  | sequence ns _ => some ns
  | n => if n.isNothing then some [] else none

/-- The entries of a mapping, each with a scalar as its key. -/
def entries? : Node → Option (List (String × Node))
  | mapping es _ => es.mapM fun e => e.1.text?.map fun k => (k, e.2)
  | n => if n.isNothing then some [] else none

/-- The members of a record that knows the given names. -/
def members? (names : List String) (n : Node) : Option (List (String × Node)) :=
  n.entries?.filter fun es =>
    names.all fun name => decide ((es.filter fun e => e.1 == name).length ≤ 1)

/-- A whole number as JSON, if it fits 64 bits. -/
def intToJson? (i : Int) : Option Json :=
  if Number.fitsWord i then some (.ofInt i) else none

/-- A real number as JSON. -/
def realToJson? (s : String) : Option Json :=
  if isInfinite s then some .null else (readReal? s).map fun x => .number (.real x)

/-- A whole number that fits 128 bits with a sign or without one. -/
def fitsDoubleWord (i : Int) : Bool :=
  decide (-170141183460469231731687303715884105728 ≤ i ∧
    i ≤ 340282366920938463463374607431768211455)

/-- A plain scalar as JSON.  Numbers beyond 64 bits, but not beyond 128, are
refused. -/
def plainToJson? (s : String) : Option Json :=
  if s == "" || isNull s then some .null
  else match readBool? s with
    | some b => some (.bool b)
    | none =>
      match (readInt? s).filter fitsDoubleWord with
      | some i => intToJson? i
      | none =>
        if isPadded s.toList then some (.string s) else (realToJson? s).or (some (.string s))

/-- A scalar with a tag as JSON.  Tags of one exclamation mark are refused. -/
def taggedToJson? (s : String) (plain : Bool) (tag : String) : Option Json :=
  if tag.startsWith "!" then none
  else if tag == standardTag "bool" then (readBool? s).map .bool
  else if tag == standardTag "int" then (readInt? s).bind intToJson?
  else if tag == standardTag "float" then realToJson? s
  else if tag == standardTag "null" then (if isNull s then some .null else none)
  else if plain && !tag.startsWith "tag:" then plainToJson? s
  else some (.string s)

/-- A collection whose tag does not stand in the way. -/
def untagged (tag : Option String) : Bool := tag.all fun t => !t.startsWith "!"

mutual

/-- The node as JSON. -/
def json? : Node → Option Json
  | scalar s plain none => if plain then plainToJson? s else some (.string s)
  | scalar s plain (some t) => taggedToJson? s plain t
  | sequence ns tag => if untagged tag then (jsonAll? ns).map .array else none
  | mapping es tag => if untagged tag then (jsonEntries? es).map fun ms => .object (Json.sortMembers ms)
    else none

def jsonAll? : List Node → Option (List Json)
  | [] => some []
  | n :: ns => do return (← json? n) :: (← jsonAll? ns)

def jsonEntries? : List (Node × Node) → Option (List (String × Json))
  | [] => some []
  | (k, v) :: es => do return (← k.text?, ← json? v) :: (← jsonEntries? es)

end

end Node

instance : Document Node where
  isAbsent := Node.isAbsent
  text? := Node.text?
  bool? n := n.plain?.bind readBool?
  int? := Node.int?
  nat? := Node.nat?
  choice? := Node.choice?
  elements? := Node.elements?
  members? := Node.members?
  json? := Node.json?

end ContentStore.Yaml
