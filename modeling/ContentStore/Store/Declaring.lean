import ContentStore.Catalog.Declaration
import ContentStore.Store.Fields
import ContentStore.Store.Models

/-!
# Applying a declared catalog

The groups and models that a catalog declares and the store does not have yet
are created; those it has are left as they are, whatever the declaration says
about them.  All new models are created before the fields of any of them, so
that references may point at models declared later.  Each creation is a write
of its own.
-/

namespace ContentStore

namespace Declaration

/-- The project of everything declared. -/
def projectId (d : Declaration) : ProjectId := ⟨d.project.getD "default"⟩

/-- The workspace of everything declared. -/
def workspaceId (d : Declaration) : WorkspaceId := ⟨d.workspace.getD "default"⟩

/-- The catalog acts for itself, with the right to maintain its workspace. -/
def context (d : Declaration) : Context :=
  .steady ⟨.integration ⟨"catalog"⟩, [], [d.workspaceId]⟩

end Declaration

namespace Store

/-- Takes a serial number from the supply. -/
def freshSerial : Operation Nat :=
  modifyGet fun s => (s.supply.next, { s with supply := ⟨s.supply.next + 1⟩ })

/-- A declared tag with a fresh id. -/
def declaredTag (name : String) : Operation TagOption :=
  return ⟨.ofSerial (← freshSerial), name, none⟩

/-- The type of a declared field.  The model or group it names has to be
stored. -/
def declaredType (project : ProjectId) (f : Declaration.Field) : Operation FieldType := do
  match f.kind with
  | .text => return .text f.maxLength
  | .textArea => return .textArea f.maxLength
  | .markdown => return .markdown f.maxLength
  | .bool => return .bool
  | .checkbox => return .checkbox
  | .integer => return .integer f.low f.high
  | .select => return .select f.options
  | .tag => return .tag (← f.tags.mapM declaredTag)
  | .url => return .url
  | .dateTime => return .dateTime
  | .asset => return .asset
  | .reference =>
    let some key := f.model | throw (.misuse (.referenceWithoutModel f.key))
    let m ← (← get).modelByKey project key
    return .reference m.id m.schema none
  | .group =>
    let some key := f.group | throw (.misuse (.groupWithoutGroup f.key))
    let g ← (← get).groupByKey project key
    return .group g.id

/-- The declared mirror as input of a new field. -/
def declaredMirror (m : Declaration.Mirror) : Mirror :=
  ⟨m.key, m.name, m.description.getD "", m.required⟩

/-- Creates a declared field. -/
def declareField (d : Declaration) (schema : SchemaId) (f : Declaration.Field) :
    Operation Unit := do
  let type ← declaredType d.projectId f
  let _ ← createField d.context {
    schema
    key := f.key
    name := f.name
    description := f.description.getD ""
    type
    multiple := f.multiple
    required := f.required
    unique := f.unique
    isTitle := f.title
    default := f.default
    mirror := f.mirror.map declaredMirror }

/-- Creates a declared group with its fields, unless its key is taken. -/
def declareGroup (d : Declaration) (g : Declaration.Group) : Operation Unit := do
  if ((← get).tables.groupByKey? d.projectId g.key).isSome then return
  let created ← createGroup d.context
    ⟨d.projectId, d.workspaceId, g.key, g.name, g.description.getD ""⟩
  g.fields.forM (declareField d created.schema)

/-- Creates a declared model without fields, unless its key is taken. -/
def declareModel (d : Declaration) (m : Declaration.Model) :
    Operation (Option (Model × Declaration.Model)) := do
  if ((← get).tables.modelByKey? d.projectId m.key).isSome then return none
  let created ← createModel d.context
    ⟨d.projectId, d.workspaceId, m.key, m.name, m.description.getD "", !m.metadata.isEmpty⟩
  return some (created, m)

/-- Creates the fields of a declared model. -/
def declareFields (d : Declaration) (created : Model × Declaration.Model) : Operation Unit := do
  created.2.fields.forM (declareField d created.1.schema)
  match created.1.metadataSchema with
  | some id => created.2.metadata.forM (declareField d id)
  | none => return

/-- Creates what a catalog declares and the store does not have. -/
def declare (d : Declaration) : Operation Unit := do
  d.groups.forM (declareGroup d)
  let created ← d.models.mapM (declareModel d)
  (created.filterMap id).forM (declareFields d)

end Store

end ContentStore
