import ContentStore.Value.Values

/-!
# Types of fields

The type of a field is the kind of its values together with the constraints
that only make sense for that kind.
-/

namespace ContentStore

/-- A tag that can be chosen in a tag field. -/
structure TagOption where
  id : TagId
  name : String
  color : Option String
  deriving DecidableEq, Repr

instance : Record TagOption where
  toJson t := Record.object [Record.put "id" t.id, Record.put "name" t.name, Record.putSome "color" t.color]
  ofJson? j := do
    let ms ← Record.members? ["id", "name", "color"] j
    return ⟨← ms.required "id", ← ms.required "name", ← ms.optional "color"⟩

/-- The kind of a field with its constraints. -/
inductive FieldType where
  | text (maxLength : Option Nat)
  | textArea (maxLength : Option Nat)
  | markdown (maxLength : Option Nat)
  | bool
  | checkbox
  | integer (low high : Option Int)
  | select (options : List String)
  | tag (tags : List TagOption)
  | url
  | dateTime
  | asset
  /-- A reference to items of a model.  With a corresponding field it is one
  end of a two-way reference whose other end is that field of the schema. -/
  | reference (model : ModelId) (schema : SchemaId) (corresponding : Option FieldId)
  | group (group : GroupId)
  deriving DecidableEq, Repr

namespace FieldType

/-- The kind of the values of a type. -/
def kind : FieldType → Kind
  | text _ => .text
  | textArea _ => .textArea
  | markdown _ => .markdown
  | bool => .bool
  | checkbox => .checkbox
  | integer _ _ => .integer
  | select _ => .select
  | tag _ => .tag
  | url => .url
  | dateTime => .dateTime
  | asset => .asset
  | reference _ _ _ => .reference
  | group _ => .group

/-- The members a type is written with, besides its tag. -/
def members : FieldType → List (String × Json)
  | text max | textArea max | markdown max => [("max_length", toJson max)]
  | bool | checkbox | url | dateTime | asset => []
  | integer low high => [("min", toJson low), ("max", toJson high)]
  | select options => [("values", toJson options)]
  | tag tags => [("tags", toJson tags)]
  | reference model schema corresponding =>
    [("model", toJson model), ("schema", toJson schema),
      ("corresponding_field", toJson corresponding)]
  | group g => [("group", toJson g)]

/-- The type of a kind from its members. -/
def ofMembers? (kind : Kind) (j : Json) : Option FieldType :=
  let limit : Option (Option Nat) :=
    (Record.members? ["max_length"] j).bind fun ms => ms.optional "max_length"
  let bare (type : FieldType) : Option FieldType := (Record.members? [] j).map fun _ => type
  match kind with
  | .text => limit.map .text
  | .textArea => limit.map .textArea
  | .markdown => limit.map .markdown
  | .bool => bare .bool
  | .checkbox => bare .checkbox
  | .url => bare .url
  | .dateTime => bare .dateTime
  | .asset => bare .asset
  | .integer => do
    let ms ← Record.members? ["min", "max"] j
    return .integer (← ms.optional "min") (← ms.optional "max")
  | .select => do
    let ms ← Record.members? ["values"] j
    return .select (← ms.required "values")
  | .tag => do
    let ms ← Record.members? ["tags"] j
    return .tag (← ms.required "tags")
  | .reference => do
    let ms ← Record.members? ["model", "schema", "corresponding_field"] j
    return .reference (← ms.required "model") (← ms.required "schema")
      (← ms.optional "corresponding_field")
  | .group => do
    let ms ← Record.members? ["group"] j
    return .group (← ms.required "group")

end FieldType

instance : Record FieldType where
  toJson t := .object (("type", .string t.kind.name) :: t.members)
  ofJson? j := do
    let (name, rest) ← Record.tagged? "type" j
    FieldType.ofMembers? (← Kind.ofName? name) rest

end ContentStore
