import ContentStore.Json.Basic

/-!
# Records as JSON

Every stored type has one written form, `toJson`, and a reader of it,
`ofJson?`.  A record is written as an object and may also be read from an
array of its members in declared order; members it does not know are skipped,
a member given twice is refused.  A choice between forms is tagged in one of
two ways: `tagged?` reads the tag among the members, `adjacent?` reads tag and
content as two members.
-/

namespace ContentStore

/-- A type with a written form and a reader of it. -/
class Record (α : Type) where
  toJson : α → Json
  ofJson? : Json → Option α

export Record (toJson ofJson?)

namespace Record

/-- Members of a record that is being read. -/
structure Members where
  entries : List (String × Json)

/-- The members of a record that knows the given names. -/
def members? (names : List String) : Json → Option Members
  | .object ms =>
    if names.all fun n => decide ((ms.filter fun m => m.1 == n).length ≤ 1) then some ⟨ms⟩ else none
  | .array xs => if xs.length ≤ names.length then some ⟨names.zip xs⟩ else none
  | _ => none

namespace Members

/-- A member as it was written. -/
def raw? (ms : Members) (name : String) : Option Json := ms.entries.lookup name

/-- A member that has to be there. -/
def required {α : Type} [Record α] (ms : Members) (name : String) : Option α :=
  (ms.raw? name).bind ofJson?

/-- A member with a value of its own when it is missing. -/
def withDefault {α : Type} [Record α] (ms : Members) (name : String) (value : α) : Option α :=
  match ms.raw? name with
  | none => some value
  | some j => ofJson? j

/-- A member that may be missing or null. -/
def optional {α : Type} [Record α] (ms : Members) (name : String) : Option (Option α) :=
  match ms.raw? name with
  | none => some none
  | some .null => some none
  | some j => (ofJson? j).map some

end Members

/-- The name of a choice without content: the name alone, or an object with
it as the only member, of value null. -/
def choice? : Json → Option String
  | .string s => some s
  | .object [(s, .null)] => some s
  | _ => none

/-- The tag among the members, and the record without it. -/
def tagged? (tag : String) : Json → Option (String × Json)
  | .object ms =>
    match ms.filter fun m => m.1 == tag with
    | [(_, .string t)] => some (t, .object (ms.filter fun m => m.1 != tag))
    | _ => none
  | .array (.string t :: xs) => some (t, .array xs)
  | _ => none

/-- Tag and content as two members. -/
def adjacent? (tag content : String) (j : Json) : Option (String × Json) := do
  let ms ← members? [tag, content] j
  let t ← (ms.raw? tag).bind choice?
  let c ← ms.raw? content
  return (t, c)

/-- A list without its missing members, as an object. -/
def object (members : List (Option (String × Json))) : Json := .object (members.filterMap id)

/-- A member that is always written. -/
def put {α : Type} [Record α] (name : String) (a : α) : Option (String × Json) :=
  some (name, toJson a)

/-- A member that is left out when there is nothing to write. -/
def putSome {α : Type} [Record α] (name : String) (a : Option α) : Option (String × Json) :=
  a.map fun a => (name, toJson a)

/-- A list member that is left out when it is empty. -/
def putNonempty (name : String) (xs : List Json) : Option (String × Json) :=
  if xs.isEmpty then none else some (name, .array xs)

end Record

instance : Record Json := ⟨id, some⟩
instance : Record String := ⟨.string, Json.asString?⟩
instance : Record Bool := ⟨.bool, Json.asBool?⟩

/-- Counts are whole numbers of 64 bits. -/
instance : Record Nat := ⟨Json.ofNat, Json.asNat64?⟩

/-- Whole numbers have 64 bits. -/
instance : Record Int := ⟨Json.ofInt, Json.asInt64?⟩

instance {α : Type} [Record α] : Record (List α) :=
  ⟨fun xs => .array (xs.map toJson), fun j => j.asArray?.bind fun xs => xs.mapM ofJson?⟩

instance {α : Type} [Record α] : Record (Option α) :=
  ⟨Json.ofOption toJson, fun j => match j with
    | .null => some none
    | j => (ofJson? j).map some⟩

instance {α β : Type} [Record α] [Record β] : Record (α × β) :=
  ⟨fun p => .array [toJson p.1, toJson p.2], fun j => match j with
    | .array [a, b] => do return (← ofJson? a, ← ofJson? b)
    | _ => none⟩

end ContentStore
