import ContentStore.Catalog.Document
import ContentStore.Store.Basic

/-!
# Declared catalogs

A catalog can be declared in one document: its project and workspace, sizes of
pages, groups, and models with their fields.  Declarations name models and
groups by their keys.
-/

namespace ContentStore

namespace Declaration

/-- The other end of a two-way reference. -/
structure Mirror where
  key : String
  name : Option String
  description : Option String
  required : Bool
  deriving DecidableEq, Repr

/-- A declared field.  The constraints of all kinds stand side by side; only
those of its kind count. -/
structure Field where
  key : String
  name : Option String
  description : Option String
  kind : Kind
  multiple : Bool
  required : Bool
  unique : Bool
  title : Bool
  default : Option Json
  maxLength : Option Nat
  low : Option Int
  high : Option Int
  options : List String
  tags : List String
  /-- Key of the model that a reference points at. -/
  model : Option String
  mirror : Option Mirror
  /-- Key of the group that is embedded. -/
  group : Option String

/-- A declared group. -/
structure Group where
  key : String
  name : Option String
  description : Option String
  fields : List Field

/-- A declared model.  With metadata fields it gets a metadata schema. -/
structure Model where
  key : String
  name : Option String
  description : Option String
  fields : List Field
  metadata : List Field

end Declaration

/-- A declared catalog. -/
structure Declaration where
  project : Option String
  workspace : Option String
  config : Option Config
  groups : List Declaration.Group
  models : List Declaration.Model

namespace Declaration

section Reading

open Document

variable {δ : Type} [Document δ]

/-- Reads the other end of a two-way reference. -/
def Mirror.read? (d : δ) : Option Mirror := do
  let ms ← members? ["key", "name", "description", "required"] d
  return ⟨← Document.required text? ms "key", ← optional text? ms "name",
    ← optional text? ms "description", ← withDefault bool? false ms "required"⟩

/-- Reads a declared field. -/
def Field.read? (d : δ) : Option Field := do
  let ms ← members? ["key", "name", "description", "type", "multiple", "required", "unique",
    "title", "default", "max_length", "min", "max", "values", "tags", "model", "corresponding",
    "group"] d
  return {
    key := ← Document.required text? ms "key"
    name := ← optional text? ms "name"
    description := ← optional text? ms "description"
    kind := ← Kind.ofName? (← Document.required choice? ms "type")
    multiple := ← withDefault bool? false ms "multiple"
    required := ← withDefault bool? false ms "required"
    unique := ← withDefault bool? false ms "unique"
    title := ← withDefault bool? false ms "title"
    default := ← optional json? ms "default"
    maxLength := ← optional nat? ms "max_length"
    low := ← optional int? ms "min"
    high := ← optional int? ms "max"
    options := ← withDefault (list text?) [] ms "values"
    tags := ← withDefault (list text?) [] ms "tags"
    model := ← optional text? ms "model"
    mirror := ← optional Mirror.read? ms "corresponding"
    group := ← optional text? ms "group" }

/-- Reads a declared group. -/
def Group.read? (d : δ) : Option Group := do
  let ms ← members? ["key", "name", "description", "fields"] d
  return ⟨← Document.required text? ms "key", ← optional text? ms "name",
    ← optional text? ms "description", ← withDefault (list Field.read?) [] ms "fields"⟩

/-- Reads a declared model. -/
def Model.read? (d : δ) : Option Model := do
  let ms ← members? ["key", "name", "description", "fields", "metadata"] d
  return ⟨← Document.required text? ms "key", ← optional text? ms "name",
    ← optional text? ms "description", ← withDefault (list Field.read?) [] ms "fields",
    ← withDefault (list Field.read?) [] ms "metadata"⟩

/-- Reads the sizes of pages. -/
def readConfig? (d : δ) : Option Config := do
  let ms ← members? ["default_page_size", "max_page_size"] d
  return ⟨← withDefault nat? Config.standard.defaultPageSize ms "default_page_size",
    ← withDefault nat? Config.standard.maxPageSize ms "max_page_size"⟩

/-- Reads a declared catalog. -/
def read? (d : δ) : Option Declaration := do
  let ms ← members? ["project", "workspace", "config", "groups", "models"] d
  return ⟨← optional text? ms "project", ← optional text? ms "workspace",
    ← optional readConfig? ms "config", ← withDefault (list Group.read?) [] ms "groups",
    ← withDefault (list Model.read?) [] ms "models"⟩

end Reading

/-- The written form of the other end of a two-way reference. -/
def Mirror.toJson (m : Mirror) : Json :=
  .object [("key", Record.toJson m.key), ("name", Record.toJson m.name),
    ("description", Record.toJson m.description), ("required", Record.toJson m.required)]

/-- The written form of a declared field. -/
def Field.toJson (f : Field) : Json :=
  .object [("key", Record.toJson f.key), ("name", Record.toJson f.name),
    ("description", Record.toJson f.description), ("type", Record.toJson f.kind),
    ("multiple", Record.toJson f.multiple), ("required", Record.toJson f.required),
    ("unique", Record.toJson f.unique), ("title", Record.toJson f.title),
    ("default", Record.toJson f.default), ("max_length", Record.toJson f.maxLength),
    ("min", Record.toJson f.low), ("max", Record.toJson f.high),
    ("values", Record.toJson f.options), ("tags", Record.toJson f.tags),
    ("model", Record.toJson f.model), ("corresponding", Json.ofOption Mirror.toJson f.mirror),
    ("group", Record.toJson f.group)]

/-- The written form of a declared group. -/
def Group.toJson (g : Group) : Json :=
  .object [("key", Record.toJson g.key), ("name", Record.toJson g.name),
    ("description", Record.toJson g.description), ("fields", Json.ofList Field.toJson g.fields)]

/-- The written form of a declared model. -/
def Model.toJson (m : Model) : Json :=
  .object [("key", Record.toJson m.key), ("name", Record.toJson m.name),
    ("description", Record.toJson m.description), ("fields", Json.ofList Field.toJson m.fields),
    ("metadata", Json.ofList Field.toJson m.metadata)]

end Declaration

instance : Record Declaration where
  toJson d := .object [("project", toJson d.project), ("workspace", toJson d.workspace),
    ("config", toJson d.config), ("groups", Json.ofList Declaration.Group.toJson d.groups),
    ("models", Json.ofList Declaration.Model.toJson d.models)]
  ofJson? := Declaration.read?

end ContentStore
