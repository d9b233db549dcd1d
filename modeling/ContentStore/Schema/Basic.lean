import ContentStore.Rows
import ContentStore.Schema.Defect
import ContentStore.Schema.Field
import ContentStore.Sorting

/-!
# Schemas

A schema is an ordered list of fields with distinct ids and keys, one of which
may be the title.  Models and groups both use schemas.  The operations keep
what they promise: `addField` appends under a new key and id, `setKey` keeps
keys distinct, `removeField` clears a title that pointed at the field, and
`normalizeOrder` sorts the fields by their order numbers and renumbers them.
-/

namespace ContentStore

/-- An ordered list of fields. -/
structure Schema where
  id : SchemaId
  project : ProjectId
  workspace : WorkspaceId
  fields : List Field
  title : Option FieldId
  deriving DecidableEq, Repr

namespace Schema

/-- A schema without fields. -/
def empty (id : SchemaId) (project : ProjectId) (workspace : WorkspaceId) : Schema :=
  ⟨id, project, workspace, [], none⟩

/-- The first field of an id. -/
def field? (s : Schema) (id : FieldId) : Option Field := s.fields.find? fun f => f.id == id

/-- The first field of a key. -/
def fieldByKey? (s : Schema) (key : String) : Option Field := s.fields.find? fun f => f.key == key

/-- The field named by id or key; an id counts before a key. -/
def fieldNamed? (s : Schema) (id : Option FieldId) (key : Option String) : Option Field :=
  match id, key with
  | some id, _ => s.field? id
  | none, some key => s.fieldByKey? key
  | none, none => none

def hasKey (s : Schema) (key : String) : Bool := (s.fieldByKey? key).isSome

def fieldsOfKind (s : Schema) (kind : Kind) : List Field := s.fields.filter fun f => f.kind == kind

def referenceFields (s : Schema) : List Field := s.fieldsOfKind .reference

def groupFields (s : Schema) : List Field := s.fieldsOfKind .group

/-- The groups embedded by the schema's group fields, in declared order. -/
def embedded (s : Schema) : List GroupId := s.groupFields.filterMap Field.group?

/-- The field that names the items. -/
def titleField? (s : Schema) : Option Field := s.title.bind s.field?

/-- Replaces the first field of an id. -/
def setField (s : Schema) (id : FieldId) (f : Field) : Schema :=
  { s with fields := updateFirst (fun g => g.id == id) (fun _ => f) s.fields }

/-- Appends a field, numbered as the last. -/
def addField (s : Schema) (f : Field) : Except SchemaDefect Schema :=
  if !isValidKey f.key then .error (.invalidKey f.key)
  else if s.hasKey f.key then .error (.duplicateKey f.key)
  else if (s.field? f.id).isSome then .error (.duplicateKey f.id.text)
  else .ok { s with fields := s.fields ++ [{ f with order := s.fields.length }] }

/-- Renames a field. -/
def setKey (s : Schema) (id : FieldId) (key : String) : Except SchemaDefect Schema :=
  if !isValidKey key then .error (.invalidKey key)
  else if s.fields.any fun f => f.key == key && f.id != id then .error (.duplicateKey key)
  else match s.field? id with
    | none => .error (.fieldNotFound id)
    | some f => .ok (s.setField id { f with key })

/-- Removes a field, and the title if it was that field. -/
def removeField (s : Schema) (id : FieldId) : Except SchemaDefect (Field × Schema) :=
  match s.field? id with
  | none => .error (.fieldNotFound id)
  | some f => .ok (f, { s with
      fields := s.fields.eraseP fun g => g.id == id
      title := if s.title = some id then none else s.title })

/-- Sets or clears the title: it has to be a field that holds one value. -/
def setTitle (s : Schema) (id : Option FieldId) : Except SchemaDefect Schema :=
  match id with
  | none => .ok { s with title := none }
  | some id => match s.field? id with
    | some f => if f.multiple then .error .invalidTitle else .ok { s with title := some id }
    | none => .error .invalidTitle

/-- Fields numbered by their place, counting from `n`. -/
def renumber (n : Nat) : List Field → List Field
  | [] => []
  | f :: fs => { f with order := n } :: renumber (n + 1) fs

/-- Sorts the fields by their order numbers, stably, and renumbers them. -/
def normalizeOrder (s : Schema) : Schema :=
  { s with fields := renumber 0 (sortBy (fun f g => decide (f.order < g.order)) s.fields) }

end Schema

instance : Record Schema where
  toJson s := .object [("id", toJson s.id), ("project", toJson s.project),
    ("workspace", toJson s.workspace), ("fields", toJson s.fields),
    ("title_field", toJson s.title)]
  ofJson? j := do
    let ms ← Record.members? ["id", "project", "workspace", "fields", "title_field"] j
    return {
      id := ← ms.required "id"
      project := ← ms.required "project"
      workspace := ← ms.required "workspace"
      fields := ← ms.withDefault "fields" []
      title := ← ms.optional "title_field" }

end ContentStore
