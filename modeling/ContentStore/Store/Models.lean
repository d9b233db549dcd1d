import ContentStore.Catalog.Param
import ContentStore.Store.Basic

/-!
# Models and groups

Creating models and groups, each with schemas of its own, and renaming groups.
Keys are valid, and distinct within a project.
-/

namespace ContentStore

namespace Write

/-- A new schema without fields. -/
def newSchema (project : ProjectId) (workspace : WorkspaceId) : Write Schema := do
  let s := Schema.empty (← freshId) project workspace
  change fun t => t.saveSchema s
  return s

/-- The body of creating a model. -/
def createModel (param : NewModel) : Write Model := do
  if ((← tables).modelByKey? param.project param.key).isSome then
    throw (.schema (.duplicateKey param.key))
  let schema ← newSchema param.project param.workspace
  let metadataSchema ← if param.metadata then
      some <$> newSchema param.project param.workspace
    else pure none
  let m : Model := {
    id := ← freshId
    project := param.project
    key := param.key
    name := param.name.getD param.key
    description := param.description
    schema := schema.id
    metadataSchema := metadataSchema.map Schema.id }
  change fun t => t.saveModel m
  return m

/-- The body of creating a group. -/
def createGroup (param : NewGroup) : Write Group := do
  if ((← tables).groupByKey? param.project param.key).isSome then
    throw (.schema (.duplicateKey param.key))
  let schema ← newSchema param.project param.workspace
  let g : Group := {
    id := ← freshId
    project := param.project
    key := param.key
    name := param.name.getD param.key
    description := param.description
    schema := schema.id }
  change fun t => t.saveGroup g
  return g

/-- The key a group is to have: a new one has to be valid, and free in the
project. -/
def newGroupKey (t : Tables) (g : Group) : Option String → Except Error String
  | none => .ok g.key
  | some key =>
    if key = g.key then .ok key
    else if !isValidKey key then .error (.schema (.invalidKey key))
    else if (t.groupByKey? g.project key).isSome then .error (.schema (.duplicateKey key))
    else .ok key

/-- The body of changing a group. -/
def updateGroup (g : Group) (edit : GroupEdit) : Write Group := do
  let key ← newGroupKey (← tables) g edit.key
  let g := { g with
    key
    name := edit.name.getD g.name
    description := edit.description.getD g.description }
  change fun t => t.saveGroup g
  return g

end Write

namespace Store

/-- A key for a new model or group. -/
def ensureKey (key : String) : Except Error Unit :=
  if isValidKey key then .ok () else .error (.schema (.invalidKey key))

/-- Creates a model with its schemas. -/
def createModel (ctx : Context) (param : NewModel) : Operation Model := do
  ctx.operator.checkMaintain param.workspace
  ensureKey param.key
  transact ctx (Write.createModel param)

/-- Creates a group with its schema. -/
def createGroup (ctx : Context) (param : NewGroup) : Operation Group := do
  ctx.operator.checkMaintain param.workspace
  ensureKey param.key
  transact ctx (Write.createGroup param)

/-- Changes key, name or description of a group. -/
def updateGroup (ctx : Context) (id : GroupId) (edit : GroupEdit) : Operation Group := do
  let t := (← get).tables
  let g ← t.group id
  let s ← t.schema g.schema
  ctx.operator.checkMaintain s.workspace
  transact ctx (Write.updateGroup g edit)

/-- The model of a key, which has to be stored. -/
def modelByKey (s : Store) (project : ProjectId) (key : String) : Except Error Model :=
  match s.tables.modelByKey? project key with
  | some m => .ok m
  | none => .error (.notFound .model key)

/-- The group of a key, which has to be stored. -/
def groupByKey (s : Store) (project : ProjectId) (key : String) : Except Error Group :=
  match s.tables.groupByKey? project key with
  | some g => .ok g
  | none => .error (.notFound .group key)

end Store

end ContentStore
