import ContentStore.Ident.Version
import ContentStore.Item.Basic

/-!
# Input of item writes

Raw values for fields, each named by id or key and maybe addressed to a group
instance, and the calls that carry them.
-/

namespace ContentStore

/-- Raw input for one field. -/
structure RawField where
  field : Option FieldId
  key : Option String
  group : Option InstanceId
  value : Json

namespace RawField

/-- Input for the field of a key. -/
def byKey (key : String) (value : Json) : RawField := ⟨none, some key, none, value⟩

/-- Input for the field of an id. -/
def byId (field : FieldId) (value : Json) : RawField := ⟨some field, none, none, value⟩

/-- The same input addressed to an instance. -/
def inGroup (p : RawField) (group : InstanceId) : RawField := { p with group := some group }

/-- How messages name the field. -/
def describe (p : RawField) : String :=
  match p.field, p.key with
  | some id, _ => id.text
  | none, some key => key
  | none, none => "<unnamed>"

end RawField

/-- A new item of a model. -/
structure CreateItem where
  model : ModelId
  fields : List RawField
  metadata : Option ItemId

/-- New values for an item.  A version given must still be the latest one. -/
structure UpdateItem where
  item : ItemId
  version : Option VersionId
  fields : List RawField
  metadata : Option ItemId

instance : Record RawField where
  toJson p := .object [("field", toJson p.field), ("key", toJson p.key),
    ("group", toJson p.group), ("value", p.value)]
  ofJson? j := do
    let ms ← Record.members? ["field", "key", "group", "value"] j
    return ⟨← ms.optional "field", ← ms.optional "key", ← ms.optional "group",
      (ms.raw? "value").getD .null⟩

instance : Record CreateItem where
  toJson p := .object [("model", toJson p.model), ("fields", toJson p.fields),
    ("metadata_id", toJson p.metadata)]
  ofJson? j := do
    let ms ← Record.members? ["model", "fields", "metadata_id"] j
    return ⟨← ms.required "model", ← ms.withDefault "fields" [], ← ms.optional "metadata_id"⟩

instance : Record UpdateItem where
  toJson p := .object [("item", toJson p.item), ("version", toJson p.version),
    ("fields", toJson p.fields), ("metadata_id", toJson p.metadata)]
  ofJson? j := do
    let ms ← Record.members? ["item", "version", "fields", "metadata_id"] j
    return ⟨← ms.required "item", ← ms.optional "version", ← ms.withDefault "fields" [],
      ← ms.optional "metadata_id"⟩

end ContentStore
