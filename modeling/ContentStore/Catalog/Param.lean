import ContentStore.Schema.Package

/-!
# Input of catalog writes

What the calls that create and change models, groups and fields are given.
-/

namespace ContentStore

/-- A new model.  With `metadata` it also gets a schema for metadata items. -/
structure NewModel where
  project : ProjectId
  workspace : WorkspaceId
  key : String
  name : Option String
  description : String
  metadata : Bool
  deriving DecidableEq, Repr

/-- A new group. -/
structure NewGroup where
  project : ProjectId
  workspace : WorkspaceId
  key : String
  name : Option String
  description : String
  deriving DecidableEq, Repr

/-- Changes of a group; what is not given stays. -/
structure GroupEdit where
  key : Option String
  name : Option String
  description : Option String
  deriving DecidableEq, Repr

/-- The other end of a two-way reference. -/
structure Mirror where
  key : String
  name : Option String
  description : String
  required : Bool
  deriving DecidableEq, Repr

/-- A new field of a schema.  A mirror makes a reference two-way. -/
structure NewField where
  schema : SchemaId
  key : String
  name : Option String
  description : String
  type : FieldType
  multiple : Bool
  required : Bool
  unique : Bool
  isTitle : Bool
  default : Option Json
  mirror : Option Mirror

/-- Changes of a field; what is not given stays.  A default of null takes the
default away. -/
structure FieldEdit where
  field : FieldId
  key : Option String
  name : Option String
  description : Option String
  type : Option FieldType
  multiple : Option Bool
  required : Option Bool
  unique : Option Bool
  isTitle : Option Bool
  default : Option Json
  order : Option Int
  /-- How the other end of a two-way reference is to be described. -/
  mirror : Option Mirror

namespace NewModel

/-- A model named by its key. -/
def ofKey (project : ProjectId) (workspace : WorkspaceId) (key : String) : NewModel :=
  ⟨project, workspace, key, none, "", false⟩

/-- The same model with metadata items. -/
def withMetadata (m : NewModel) : NewModel := { m with metadata := true }

end NewModel

namespace NewGroup

/-- A group named by its key. -/
def ofKey (project : ProjectId) (workspace : WorkspaceId) (key : String) : NewGroup :=
  ⟨project, workspace, key, none, ""⟩

end NewGroup

namespace Mirror

/-- An optional field named by its key. -/
def ofKey (key : String) : Mirror := ⟨key, none, "", false⟩

end Mirror

namespace NewField

/-- A single, optional field named by its key. -/
def ofKey (schema : SchemaId) (key : String) (type : FieldType) : NewField :=
  { schema, key, name := none, description := "", type, multiple := false, required := false,
    unique := false, isTitle := false, default := none, mirror := none }

end NewField

namespace FieldEdit

/-- No change of a field. -/
def ofField (field : FieldId) : FieldEdit :=
  { field, key := none, name := none, description := none, type := none, multiple := none,
    required := none, unique := none, isTitle := none, default := none, order := none,
    mirror := none }

end FieldEdit

instance : Record NewModel where
  toJson m := .object [("project", toJson m.project), ("workspace", toJson m.workspace),
    ("key", toJson m.key), ("name", toJson m.name), ("description", toJson m.description),
    ("metadata", toJson m.metadata)]
  ofJson? j := do
    let ms ← Record.members? ["project", "workspace", "key", "name", "description", "metadata"] j
    return {
      project := ← ms.required "project"
      workspace := ← ms.required "workspace"
      key := ← ms.required "key"
      name := ← ms.optional "name"
      description := ← ms.withDefault "description" ""
      metadata := ← ms.withDefault "metadata" false }

instance : Record NewGroup where
  toJson g := .object [("project", toJson g.project), ("workspace", toJson g.workspace),
    ("key", toJson g.key), ("name", toJson g.name), ("description", toJson g.description)]
  ofJson? j := do
    let ms ← Record.members? ["project", "workspace", "key", "name", "description"] j
    return {
      project := ← ms.required "project"
      workspace := ← ms.required "workspace"
      key := ← ms.required "key"
      name := ← ms.optional "name"
      description := ← ms.withDefault "description" "" }

instance : Record GroupEdit where
  toJson g := .object [("key", toJson g.key), ("name", toJson g.name),
    ("description", toJson g.description)]
  ofJson? j := do
    let ms ← Record.members? ["key", "name", "description"] j
    return ⟨← ms.optional "key", ← ms.optional "name", ← ms.optional "description"⟩

instance : Record Mirror where
  toJson m := .object [("key", toJson m.key), ("name", toJson m.name),
    ("description", toJson m.description), ("required", toJson m.required)]
  ofJson? j := do
    let ms ← Record.members? ["key", "name", "description", "required"] j
    return ⟨← ms.required "key", ← ms.optional "name", ← ms.withDefault "description" "",
      ← ms.withDefault "required" false⟩

instance : Record NewField where
  toJson f := .object [("schema", toJson f.schema), ("key", toJson f.key), ("name", toJson f.name),
    ("description", toJson f.description), ("type_property", toJson f.type),
    ("multiple", toJson f.multiple), ("required", toJson f.required), ("unique", toJson f.unique),
    ("is_title", toJson f.isTitle), ("default_value", toJson f.default),
    ("corresponding", toJson f.mirror)]
  ofJson? j := do
    let ms ← Record.members? ["schema", "key", "name", "description", "type_property", "multiple",
      "required", "unique", "is_title", "default_value", "corresponding"] j
    return {
      schema := ← ms.required "schema"
      key := ← ms.required "key"
      name := ← ms.optional "name"
      description := ← ms.withDefault "description" ""
      type := ← ms.required "type_property"
      multiple := ← ms.withDefault "multiple" false
      required := ← ms.withDefault "required" false
      unique := ← ms.withDefault "unique" false
      isTitle := ← ms.withDefault "is_title" false
      default := ← ms.optional "default_value"
      mirror := ← ms.optional "corresponding" }

/-- An order number of 32 bits that may be missing or null. -/
def readNewOrder? (ms : Record.Members) : Option (Option Int) :=
  match ms.raw? "order" with
  | none => some none
  | some .null => some none
  | some j => j.asInt32?.map some

instance : Record FieldEdit where
  toJson f := .object [("field", toJson f.field), ("key", toJson f.key), ("name", toJson f.name),
    ("description", toJson f.description), ("type_property", toJson f.type),
    ("multiple", toJson f.multiple), ("required", toJson f.required), ("unique", toJson f.unique),
    ("is_title", toJson f.isTitle), ("default_value", toJson f.default),
    ("order", toJson f.order), ("corresponding", toJson f.mirror)]
  ofJson? j := do
    let ms ← Record.members? ["field", "key", "name", "description", "type_property", "multiple",
      "required", "unique", "is_title", "default_value", "order", "corresponding"] j
    return {
      field := ← ms.required "field"
      key := ← ms.optional "key"
      name := ← ms.optional "name"
      description := ← ms.optional "description"
      type := ← ms.optional "type_property"
      multiple := ← ms.optional "multiple"
      required := ← ms.optional "required"
      unique := ← ms.optional "unique"
      isTitle := ← ms.optional "is_title"
      default := ← ms.optional "default_value"
      order := ← readNewOrder? ms
      mirror := ← ms.optional "corresponding" }

end ContentStore
