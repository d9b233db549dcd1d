import ContentStore.Schema.FieldType

/-!
# Fields

A field is the declaration of one typed slot of a schema.
-/

namespace ContentStore

/-- The declaration of one typed slot. -/
structure Field where
  id : FieldId
  key : String
  name : String
  description : String
  type : FieldType
  multiple : Bool
  required : Bool
  unique : Bool
  default : Option Values
  order : Int
  deriving DecidableEq, Repr

namespace Field

/-- A field of a type that is single, optional and named by its key. -/
def named (id : FieldId) (key : String) (type : FieldType) : Field :=
  { id, key, name := key, description := "", type, multiple := false, required := false,
    unique := false, default := none, order := 0 }

/-- The kind of the field's values. -/
def kind (f : Field) : Kind := f.type.kind

/-- Model and schema of the items a reference field points at. -/
def target? (f : Field) : Option (ModelId × SchemaId) :=
  match f.type with
  | .reference model schema _ => some (model, schema)
  | _ => none

/-- The other end of a two-way reference: a field of the target schema. -/
def corresponding? (f : Field) : Option FieldId :=
  match f.type with
  | .reference _ _ corresponding => corresponding
  | _ => none

/-- The field is one end of a two-way reference. -/
def isTwoWay (f : Field) : Bool := f.corresponding?.isSome

/-- The group embedded by a group field. -/
def group? (f : Field) : Option GroupId :=
  match f.type with
  | .group g => some g
  | _ => none

/-- A reference field with another corresponding field; other fields stay as
they are. -/
def withCorresponding (f : Field) (corresponding : Option FieldId) : Field :=
  match f.type with
  | .reference model schema _ => { f with type := .reference model schema corresponding }
  | _ => f

end Field

/-- An order number of 32 bits. -/
def readOrder? (ms : Record.Members) : Option Int :=
  match ms.raw? "order" with
  | none => some 0
  | some j => j.asInt32?

instance : Record Field where
  toJson f := .object [("id", toJson f.id), ("key", toJson f.key), ("name", toJson f.name),
    ("description", toJson f.description), ("type_property", toJson f.type),
    ("multiple", toJson f.multiple), ("required", toJson f.required),
    ("unique", toJson f.unique), ("default_value", toJson f.default),
    ("order", toJson f.order)]
  ofJson? j := do
    let ms ← Record.members? ["id", "key", "name", "description", "type_property", "multiple",
      "required", "unique", "default_value", "order"] j
    return {
      id := ← ms.required "id"
      key := ← ms.required "key"
      name := ← ms.required "name"
      description := ← ms.withDefault "description" ""
      type := ← ms.required "type_property"
      multiple := ← ms.withDefault "multiple" false
      required := ← ms.withDefault "required" false
      unique := ← ms.withDefault "unique" false
      default := ← ms.optional "default_value"
      order := ← readOrder? ms }

end ContentStore
