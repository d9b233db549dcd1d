import ContentStore.Schema.Basic

/-!
# Models, groups and packages

A model has a schema for its items and may have a second one for metadata
items.  A group is a schema that group fields embed.  A package is everything
that reading or writing items of one model needs: the schemas of the model, of
the groups embedded at any depth, and of the items its references point at.
-/

namespace ContentStore

/-- A kind of items. -/
structure Model where
  id : ModelId
  project : ProjectId
  key : String
  name : String
  description : String
  schema : SchemaId
  metadataSchema : Option SchemaId
  deriving DecidableEq, Repr

/-- A reusable schema that fields can embed. -/
structure Group where
  id : GroupId
  project : ProjectId
  key : String
  name : String
  description : String
  schema : SchemaId
  deriving DecidableEq, Repr

/-- The schemas needed to read or write items of one model. -/
structure Package where
  model : Model
  schema : Schema
  metadataSchema : Option Schema
  groups : List (Group × Schema)
  referenced : List Schema
  deriving DecidableEq, Repr

namespace Package

/-- The schema of an embedded group. -/
def groupSchema? (p : Package) (id : GroupId) : Option Schema :=
  (p.groups.find? fun g => g.1.id == id).map Prod.snd

/-- A schema that references point into. -/
def referencedSchema? (p : Package) (id : SchemaId) : Option Schema :=
  p.referenced.find? fun s => s.id == id

/-- All schemas whose fields an item may hold, in the order in which fields
are looked up. -/
def itemSchemas (p : Package) : List Schema :=
  p.schema :: p.metadataSchema.toList ++ p.groups.map Prod.snd

/-- A field of the item schema, else of the metadata schema, else of an
embedded group. -/
def field? (p : Package) (id : FieldId) : Option Field :=
  p.itemSchemas.findSome? fun s => s.field? id

/-- The package of the metadata items: their schema takes the place of the
item schema. -/
def metadata? (p : Package) : Option Package :=
  p.metadataSchema.map fun s => { p with schema := s, metadataSchema := none }

end Package

instance : Record Model where
  toJson m := .object [("id", toJson m.id), ("project", toJson m.project),
    ("key", toJson m.key), ("name", toJson m.name), ("description", toJson m.description),
    ("schema", toJson m.schema), ("metadata_schema", toJson m.metadataSchema)]
  ofJson? j := do
    let ms ← Record.members? ["id", "project", "key", "name", "description", "schema",
      "metadata_schema"] j
    return {
      id := ← ms.required "id"
      project := ← ms.required "project"
      key := ← ms.required "key"
      name := ← ms.required "name"
      description := ← ms.withDefault "description" ""
      schema := ← ms.required "schema"
      metadataSchema := ← ms.optional "metadata_schema" }

instance : Record Group where
  toJson g := .object [("id", toJson g.id), ("project", toJson g.project),
    ("key", toJson g.key), ("name", toJson g.name), ("description", toJson g.description),
    ("schema", toJson g.schema)]
  ofJson? j := do
    let ms ← Record.members? ["id", "project", "key", "name", "description", "schema"] j
    return {
      id := ← ms.required "id"
      project := ← ms.required "project"
      key := ← ms.required "key"
      name := ← ms.required "name"
      description := ← ms.withDefault "description" ""
      schema := ← ms.required "schema" }

instance : Record Package where
  toJson p := .object [("model", toJson p.model), ("schema", toJson p.schema),
    ("metadata_schema", toJson p.metadataSchema), ("groups", toJson p.groups),
    ("referenced_schemas", toJson p.referenced)]
  ofJson? j := do
    let ms ← Record.members? ["model", "schema", "metadata_schema", "groups",
      "referenced_schemas"] j
    return {
      model := ← ms.required "model"
      schema := ← ms.required "schema"
      metadataSchema := ← ms.optional "metadata_schema"
      groups := ← ms.withDefault "groups" []
      referenced := ← ms.withDefault "referenced_schemas" [] }

end ContentStore
