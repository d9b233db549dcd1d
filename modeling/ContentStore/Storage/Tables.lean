import ContentStore.Error
import ContentStore.Schema.Package
import ContentStore.Uniqueness
import ContentStore.Version.History

/-!
# Tables

All that is stored: schemas, models, groups, versions and refs.  A row that is
saved takes the place of the rows it clashes with, those of the same id and,
for models and groups, those of the same key in the same project; it then
stands last.  Versions are only ever added, or removed with their item.  The
refs that a version lists are not stored with it but read from the table of
refs.
-/

namespace ContentStore

/-- The version that one ref of an item names. -/
structure RefRow where
  item : ItemId
  ref : Ref
  version : VersionId
  deriving DecidableEq, Repr

/-- All stored rows. -/
structure Tables where
  schemas : List Schema
  models : List Model
  groups : List Group
  /-- In the order in which they were added. -/
  versions : List Version
  refs : List RefRow
  deriving DecidableEq, Repr

/-- Puts a row last, in the place of those it clashes with. -/
def saveRow {α : Type} (clash : α → α → Bool) (rows : List α) (row : α) : List α :=
  rows.filter (fun r => !clash row r) ++ [row]

namespace Tables

/-- Nothing stored. -/
def empty : Tables := ⟨[], [], [], [], []⟩

/-! ## The catalog -/

def saveSchema (t : Tables) (s : Schema) : Tables :=
  { t with schemas := saveRow (fun a b => a.id == b.id) t.schemas s }

def schema? (t : Tables) (id : SchemaId) : Option Schema := t.schemas.find? fun s => s.id == id

/-- The schema of an id, which has to be stored. -/
def schema (t : Tables) (id : SchemaId) : Except Error Schema :=
  match t.schema? id with
  | some s => .ok s
  | none => .error (.notFound .schema id.text)

/-- Two models that cannot both be stored. -/
def modelsClash (a b : Model) : Bool := a.id == b.id || (a.project == b.project && a.key == b.key)

def saveModel (t : Tables) (m : Model) : Tables :=
  { t with models := saveRow modelsClash t.models m }

def model? (t : Tables) (id : ModelId) : Option Model := t.models.find? fun m => m.id == id

/-- The model of an id, which has to be stored. -/
def model (t : Tables) (id : ModelId) : Except Error Model :=
  match t.model? id with
  | some m => .ok m
  | none => .error (.notFound .model id.text)

def modelByKey? (t : Tables) (project : ProjectId) (key : String) : Option Model :=
  t.models.find? fun m => m.project == project && m.key == key

/-- The first model whose item schema is the one given. -/
def modelOfSchema? (t : Tables) (schema : SchemaId) : Option Model :=
  t.models.find? fun m => m.schema == schema

/-- Models of one project, or of all, sorted by project and key. -/
def listModels (t : Tables) (project : Option ProjectId) : List Model :=
  sortBy (fun a b => (a.project.compare b.project).then (Text.compare a.key b.key) == .lt)
    (t.models.filter fun m => project.all fun p => m.project == p)

/-- Two groups that cannot both be stored. -/
def groupsClash (a b : Group) : Bool := a.id == b.id || (a.project == b.project && a.key == b.key)

def saveGroup (t : Tables) (g : Group) : Tables :=
  { t with groups := saveRow groupsClash t.groups g }

def group? (t : Tables) (id : GroupId) : Option Group := t.groups.find? fun g => g.id == id

/-- The group of an id, which has to be stored. -/
def group (t : Tables) (id : GroupId) : Except Error Group :=
  match t.group? id with
  | some g => .ok g
  | none => .error (.notFound .group id.text)

def groupByKey? (t : Tables) (project : ProjectId) (key : String) : Option Group :=
  t.groups.find? fun g => g.project == project && g.key == key

/-! ## Versions and refs -/

/-- Adds a version.  Its id has to be new. -/
def insertVersion (t : Tables) (v : Version) : Except Error Tables :=
  if t.versions.any fun w => w.id == v.id then .error .storage
  else .ok { t with versions := t.versions ++ [{ v with refs := [] }] }

/-- The versions of an item, oldest first. -/
def versionsOf (t : Tables) (item : ItemId) : List Version :=
  t.versions.filter fun v => v.item.id == item

/-- The version of an id. -/
def version? (t : Tables) (id : VersionId) : Option Version := t.versions.find? fun v => v.id == id

/-- The version that a ref of an item names. -/
def target? (t : Tables) (item : ItemId) (r : Ref) : Option VersionId :=
  (t.refs.find? fun row => row.item == item && row.ref == r).map RefRow.version

/-- The refs of an item with the versions they name. -/
def refsOf (t : Tables) (item : ItemId) : List (Ref × VersionId) :=
  Ref.all.filterMap fun r => (t.target? item r).map fun v => (r, v)

def setRef (t : Tables) (item : ItemId) (r : Ref) (v : VersionId) : Tables :=
  { t with refs := saveRow (fun a b => a.item == b.item && a.ref == b.ref) t.refs ⟨item, r, v⟩ }

def deleteRef (t : Tables) (item : ItemId) (r : Ref) : Tables :=
  { t with refs := t.refs.filter fun row => !(row.item == item && row.ref == r) }

/-- The whole history of an item that has versions. -/
def history? (t : Tables) (item : ItemId) : Option History :=
  let versions := t.versionsOf item
  if versions.isEmpty then none else some (.ofParts item versions (t.refsOf item))

/-- A version with those refs of an item that name it. -/
def withRefsOf (t : Tables) (item : ItemId) (v : Version) : Version :=
  { v with refs := ((t.refsOf item).filter fun r => r.2 == v.id).map Prod.fst }

/-- The version that a ref of an item names, with all refs on it. -/
def findByRef? (t : Tables) (item : ItemId) (r : Ref) : Option Version :=
  ((t.target? item r).bind t.version?).map (t.withRefsOf item)

/-- The latest version of an item. -/
def latest? (t : Tables) (item : ItemId) : Option Version := t.findByRef? item .latest

/-- The status of an item by its refs. -/
def status (t : Tables) (item : ItemId) : Status :=
  .derive (t.target? item .latest) (t.target? item .published)

/-- The items with a version of the model, each once. -/
def itemsOf (t : Tables) (model : ModelId) : List ItemId :=
  distinct ((t.versions.filter fun v => v.item.model == model).map fun v => v.item.id)

/-- The refs of the items of a model; items without refs are left out. -/
def refsByModel (t : Tables) (model : ModelId) : List (ItemId × List (Ref × VersionId)) :=
  ((t.itemsOf model).map fun id => (id, t.refsOf id)).filter fun e => !e.2.isEmpty

/-- A version with those refs listed for its item that name it. -/
def withListed (refs : List (ItemId × List (Ref × VersionId))) (v : Version) : Version :=
  { v with refs := (((refs.lookup v.item.id).getD []).filter fun r => r.2 == v.id).map Prod.fst }

/-- The versions of a model that a ref names, in the order of item ids.  Their
refs are taken from those of all items of the model. -/
def listByModel (t : Tables) (model : ModelId) (r : Ref) : List Version :=
  let refs := t.refsByModel model
  (sortBy (fun a b => a.item.compare b.item == .lt) (t.refs.filter fun row => row.ref == r)).filterMap
    fun row => ((t.version? row.version).filter fun v => v.item.model == model).map (withListed refs)

/-- Removes an item with all of its versions and refs. -/
def deleteItem (t : Tables) (item : ItemId) : Tables :=
  { t with
    versions := t.versions.filter fun v => v.item.id != item
    refs := t.refs.filter fun row => row.item != item }

def countItems (t : Tables) (model : ModelId) : Nat := (t.itemsOf model).length

/-- The first other item of the model whose latest version holds the values in
some slot of the field. -/
def itemWithValue? (t : Tables) (q : Uniqueness.Lookup) : Option ItemId :=
  ((t.listByModel q.model .latest).find? fun v =>
    v.item.id != q.exclude && v.item.fields.any fun f => f.field == q.field && f.value == q.value).map
    fun v => v.item.id

end Tables

end ContentStore
