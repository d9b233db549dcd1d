import ContentStore.Query.Condition

/-!
# Conditions as JSON

A condition is written as an object tagged with its type.  Filters that come
from outside nest; the reader goes down at most as deep as the text does.
-/

namespace ContentStore

namespace Json

mutual

/-- How deep values stand inside one another. -/
def depth : Json → Nat
  | .array xs => depthAll xs + 1
  | .object ms => depthMembers ms + 1
  | .null => 1
  | .bool _ => 1
  | .number _ => 1
  | .string _ => 1

def depthAll : List Json → Nat
  | [] => 0
  | x :: xs => max (depth x) (depthAll xs)

def depthMembers : List (String × Json) → Nat
  | [] => 0
  | (_, v) :: ms => max (depth v) (depthMembers ms)

end

end Json

namespace Query

/-- An operator by its name. -/
structure OpNames (α : Type) where
  entries : List (String × α)

/-- Reads an operator. -/
def OpNames.read? {α : Type} (names : OpNames α) (j : Json) : Option α :=
  (Record.choice? j).bind fun n => names.entries.lookup n

/-- Writes an operator. -/
def OpNames.write {α : Type} [DecidableEq α] (names : OpNames α) (a : α) : Json :=
  match names.entries.find? fun e => e.2 == a with
  | some e => .string e.1
  | none => .null

namespace OpNames

def equal : OpNames EqualOp := ⟨[("equals", .equals), ("not_equals", .notEquals)]⟩

def text : OpNames TextOp := ⟨[("contains", .contains), ("not_contains", .notContains),
  ("starts_with", .startsWith), ("not_starts_with", .notStartsWith), ("ends_with", .endsWith),
  ("not_ends_with", .notEndsWith)]⟩

def number : OpNames NumberOp := ⟨[("greater_than", .greater),
  ("greater_than_or_equal_to", .greaterOrEqual), ("less_than", .less),
  ("less_than_or_equal_to", .lessOrEqual)]⟩

def time : OpNames TimeOp := ⟨[("after", .after), ("after_or_on", .afterOrOn),
  ("before", .before), ("before_or_on", .beforeOrOn), ("of_this_week", .ofThisWeek),
  ("of_this_month", .ofThisMonth), ("of_this_year", .ofThisYear)]⟩

def presence : OpNames PresenceOp := ⟨[("empty", .empty), ("not_empty", .notEmpty)]⟩

def set : OpNames SetOp := ⟨[("includes_any", .includesAny),
  ("not_includes_any", .notIncludesAny), ("includes_all", .includesAll),
  ("not_includes_all", .notIncludesAll)]⟩

end OpNames

namespace Condition

/-- A condition that reads a field, with its type, operator and operand. -/
def leaf (type : String) (field : Selector) (op : Json) (operand : List (String × Json)) : Json :=
  .object ([("type", .string type), ("field", Record.toJson field), ("op", op)] ++ operand)

mutual

/-- The written form of a condition. -/
def toJson : Condition → Json
  | basic field op value => leaf "basic" field (OpNames.equal.write op) [("value", value)]
  | text field op value =>
    leaf "string" field (OpNames.text.write op) [("value", .string value)]
  | number field op value =>
    leaf "number" field (OpNames.number.write op) [("value", .number (.real value))]
  | bool field op value => leaf "bool" field (OpNames.equal.write op) [("value", .bool value)]
  | time field op value =>
    leaf "time" field (OpNames.time.write op) [("value", Record.toJson value)]
  | presence field op => leaf "nullable" field (OpNames.presence.write op) []
  | set field op values =>
    leaf "multiple" field (OpNames.set.write op) [("values", .array values)]
  | and cs => .object [("type", .string "and"), ("conditions", .array (allToJson cs))]
  | or cs => .object [("type", .string "or"), ("conditions", .array (allToJson cs))]

def allToJson : List Condition → List Json
  | [] => []
  | c :: cs => toJson c :: allToJson cs

end

/-- Field and operator of a condition that reads a field. -/
def readLeaf? {α : Type} (names : OpNames α) (ms : Record.Members) : Option (Selector × α) := do
  return (← ms.required "field", ← (ms.raw? "op").bind names.read?)

/-- A condition of a type from its members; `nested` reads the conditions
inside it. -/
def ofMembers? (nested : Json → Option Condition) (type : String) (j : Json) :
    Option Condition := do
  let leaf (operand : List String) : Option Record.Members :=
    Record.members? ("field" :: "op" :: operand) j
  match type with
  | "basic" =>
    let ms ← leaf ["value"]
    let (field, op) ← readLeaf? OpNames.equal ms
    return basic field op (← ms.raw? "value")
  | "string" =>
    let ms ← leaf ["value"]
    let (field, op) ← readLeaf? OpNames.text ms
    return text field op (← ms.required "value")
  | "number" =>
    let ms ← leaf ["value"]
    let (field, op) ← readLeaf? OpNames.number ms
    return number field op (← (ms.raw? "value").bind Json.asReal?)
  | "bool" =>
    let ms ← leaf ["value"]
    let (field, op) ← readLeaf? OpNames.equal ms
    return bool field op (← ms.required "value")
  | "time" =>
    let ms ← leaf ["value"]
    let (field, op) ← readLeaf? OpNames.time ms
    return time field op (← ms.optional "value")
  | "nullable" =>
    let ms ← leaf []
    let (field, op) ← readLeaf? OpNames.presence ms
    return presence field op
  | "multiple" =>
    let ms ← leaf ["values"]
    let (field, op) ← readLeaf? OpNames.set ms
    return set field op (← ms.required "values")
  | "and" =>
    let ms ← Record.members? ["conditions"] j
    return and (← ((← (ms.raw? "conditions").bind Json.asArray?).mapM nested))
  | "or" =>
    let ms ← Record.members? ["conditions"] j
    return or (← ((← (ms.raw? "conditions").bind Json.asArray?).mapM nested))
  | _ => none

/-- A condition at most so many levels deep. -/
def readDeep? : Nat → Json → Option Condition
  | 0, _ => none
  | fuel + 1, j => do
    let (type, rest) ← Record.tagged? "type" j
    ofMembers? (readDeep? fuel) type rest

end Condition

end Query

instance : Record Query.Condition :=
  ⟨Query.Condition.toJson, fun j => Query.Condition.readDeep? j.depth j⟩

end ContentStore
