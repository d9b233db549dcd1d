import ContentStore.Embedding.Completion
import ContentStore.Pairing
import ContentStore.Store.Basic

/-!
# Writing items

Creating, updating and deleting an item.  A write reads its input with the
package of the item's model, checks what other items have to say about it
(unique values, referenced items), appends the new version, and lets the
partners of its two-way references follow.
-/

namespace ContentStore

open Time (Instant)

namespace Write

/-- The latest snapshot of an item. -/
def latestItem (t : Tables) (id : ItemId) : Option Item := (t.latest? id).map Version.item

/-- Appends a snapshot of an item that merely follows the write of another. -/
def saveFollower (o : Operator) (it : Item) : Write Unit := do
  let _ ← append { it with updatedBy := some o.principal } none

/-- Saves followers in order. -/
def saveFollowers (o : Operator) (its : List Item) : Write Unit := its.forM (saveFollower o)

/-- No other item holds one of the new values of a unique field. -/
def checkUnique (p : Package) (id : ItemId) (old : Option Item) (values : List ItemField) :
    Write Unit := do
  (Uniqueness.check (← tables).itemWithValue? p id old values).2

/-- A referenced item has to be stored, to be of the model that the field
points at, and not to be the item itself if the field is paired. -/
def checkTarget (t : Tables) (item : ItemId) (f : Field) (model : ModelId) (key : String)
    (target : ItemId) : Except Error Unit :=
  if target = item ∧ f.isTwoWay then .error (.misuse (.selfReference target key))
  else match latestItem t target with
    | none => .error (.notFound .referencedItem target.text)
    | some it =>
      if it.model = model then .ok () else .error (.misuse (.wrongTarget target key model))

/-- All items that one value refers to may be referred to by its field. -/
def checkTargets (t : Tables) (p : Package) (item : ItemId) (v : ItemField) : Except Error Unit :=
  match p.field? v.field with
  | none => .ok ()
  | some f => match f.target? with
    | none => .ok ()
    | some (model, _) => v.value.references.forM (checkTarget t item f model v.key)

/-- All items that values refer to may be referred to by their fields. -/
def checkAllTargets (p : Package) (item : ItemId) (values : List ItemField) : Write Unit := do
  let t ← tables
  (values.forM (checkTargets t p item) : Except Error Unit)

/-- The metadata item of that id, which has to follow the metadata schema of
the model. -/
def metadataItem (t : Tables) (p : Package) (it : Item) (id : ItemId) : Except Error Item :=
  match latestItem t id with
  | none => .error (.notFound .metadataItem id.text)
  | some m =>
    if p.metadataSchema.any (fun s => s.id == m.schema) ∧ m.model = it.model then .ok m
    else .error (.misuse (.notMetadata id it.model))

/-- Links an item and a metadata item with each other.  The item is yet to be
appended; the metadata item is, unless it names the item already. -/
def linkMetadata (o : Operator) (p : Package) (it : Item) (id : ItemId) : Write Item := do
  let m ← metadataItem (← tables) p it id
  if m.metadataOf ≠ some it.id then saveFollower o { m with metadataOf := some it.id }
  return { it with metadataItem := some id }

/-- Links the metadata item that the input names, if it names one. -/
def linkNamed (o : Operator) (p : Package) (it : Item) : Option ItemId → Write Item
  | some id => linkMetadata o p it id
  | none => pure it

/-- The schema that a reference field points into. -/
def targetSchema (p : Package) (f : Field) : Option Schema :=
  f.target?.bind fun t => p.referencedSchema? t.2

/-- Lets the partners of a written item follow. -/
def repairPartners (o : Operator) (p : Package) (it : Item) (old : Option Item) : Write Unit := do
  let followers ← Pairing.repairs (latestItem (← tables)) p.schema (targetSchema p) it old
  saveFollowers o followers

/-- The latest versions of the items referred to, as far as they are stored. -/
def referenced (it : Item) : Write (List Version) :=
  return it.references.filterMap (← tables).latest?

/-- A new item without values. -/
def newItem (p : Package) (o : Operator) (createdAt : Instant) : Write Item :=
  return {
    id := ← freshId
    project := p.model.project
    model := p.model.id
    schema := p.schema.id
    thread := ← freshId
    fields := []
    metadataItem := none
    metadataOf := none
    createdBy := o.principal
    updatedBy := none
    createdAt }

/-- The body of creating an item. -/
def createItem (o : Operator) (p : Package) (param : CreateItem) : Write Version := do
  let start ← now
  let it ← newItem p o start
  let values ← Embedding.valuesOfRaw p param.fields []
  let values ← Embedding.completed p values
  checkUnique p it.id none values
  checkAllTargets p it.id values
  let it ← linkNamed o p (it.update values) param.metadata
  let created ← append it none
  repairPartners o p created.item none
  queue ⟨.create, created, o, [], ← referenced created.item, start⟩
  return created

/-- The body of updating an item. -/
def updateItem (o : Operator) (p : Package) (param : UpdateItem) : Write Version := do
  let start ← now
  let some old := latestItem (← tables) param.item
    | throw (.notFound .item param.item.text)
  let values ← Embedding.valuesOfRaw p param.fields old.fields
  checkUnique p old.id (some old) values
  checkAllTargets p old.id values
  let merged ← Embedding.completed p (mergeValues old.fields values)
  let it := { old with fields := merged, updatedBy := some o.principal }
  let it ← linkNamed o p it param.metadata
  let changes := Change.between it.fields old.fields
  let updated ← append it param.version
  repairPartners o p updated.item (some old)
  queue ⟨.update, updated, o, changes, ← referenced updated.item, start⟩
  return updated

/-- The body of deleting an item.  Its metadata item goes with it. -/
def deleteItem (o : Operator) (p : Package) (id : ItemId) : Write Unit := do
  let start ← now
  let some last := (← tables).latest? id | throw (.notFound .item id.text)
  saveFollowers o (Pairing.detachments (latestItem (← tables)) p.schema last.item)
  match last.item.metadataItem with
  | some m => change fun t => t.deleteItem m
  | none => pure ()
  change fun t => t.deleteItem id
  queue ⟨.delete, last, o, [], [], start⟩

end Write

namespace Store

/-- The latest version of an item. -/
def find (s : Store) (ctx : Context) (id : ItemId) : Except Error Version := do
  ctx.ensureActive s.progress
  match s.tables.latest? id with
  | some v => return v
  | none => throw (.notFound .item id.text)

/-- The package of an item that is about to be written, by an operator who may
write to it. -/
def writtenPackage (s : Store) (ctx : Context) (id : ItemId) : Except Error Package := do
  let current ← s.find ctx id
  let p ← s.tables.itemPackage current.item
  ctx.operator.checkWrite p.schema.workspace
  return p

/-- Creates an item with the values that the input gives to it. -/
def createItem (ctx : Context) (param : CreateItem) : Operation Version := do
  let p ← (← get).tables.package param.model
  ctx.operator.checkWrite p.schema.workspace
  transact ctx (Write.createItem ctx.operator p param)

/-- Creates a metadata item of a model. -/
def createMetadataItem (ctx : Context) (param : CreateItem) : Operation Version := do
  let p ← Tables.metadataPackage (← (← get).tables.package param.model)
  if param.metadata.isSome then throw (.misuse .metadataOfMetadata)
  ctx.operator.checkWrite p.schema.workspace
  transact ctx (Write.createItem ctx.operator p param)

/-- Gives new values to an item. -/
def updateItem (ctx : Context) (param : UpdateItem) : Operation Version := do
  if param.fields.isEmpty then throw (.misuse .nothingToUpdate)
  let p ← (← get).writtenPackage ctx param.item
  modify polled
  transact ctx (Write.updateItem ctx.operator p param)

/-- Removes an item with all of its versions, and its metadata item with it. -/
def deleteItem (ctx : Context) (id : ItemId) : Operation Unit := do
  let p ← (← get).writtenPackage ctx id
  modify polled
  transact ctx (Write.deleteItem ctx.operator p id)

end Store

end ContentStore
