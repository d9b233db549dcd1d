import ContentStore.Pairing
import ContentStore.Store.Items

/-!
# Reading items

Reads look at the tables only.  Searching also reads the clock, which the
periods around now are anchored to.
-/

namespace ContentStore

namespace Store

/-- The published version of an item. -/
def findPublic (s : Store) (ctx : Context) (id : ItemId) : Except Error Version := do
  ctx.ensureActive s.progress
  match s.tables.findByRef? id .published with
  | some v => return v
  | none => throw (.notFound .publicItem id.text)

/-- The latest versions of those of the items that are stored. -/
def findMany (s : Store) (ctx : Context) (ids : List ItemId) : Except Error (List Version) := do
  ctx.ensureActive s.progress
  return ids.filterMap s.tables.latest?

/-- Number of items stored under a model, metadata items among them. -/
def count (s : Store) (ctx : Context) (model : ModelId) : Except Error Nat := do
  ctx.ensureActive s.progress
  return s.tables.countItems model

/-- All versions of an item, oldest first. -/
def history (s : Store) (ctx : Context) (id : ItemId) : Except Error (List Version) := do
  ctx.ensureActive s.progress
  match s.tables.history? id with
  | some h => return h.versions
  | none => throw (.notFound .item id.text)

/-- The status of an item, which has to have refs. -/
def statusOf (t : Tables) (id : ItemId) : Except Error (ItemId × Status) :=
  if (t.refsOf id).isEmpty then .error (.notFound .item id.text) else .ok (id, t.status id)

/-- The status of every item. -/
def status (s : Store) (ctx : Context) (ids : List ItemId) :
    Except Error (List (ItemId × Status)) := do
  ctx.ensureActive s.progress
  ids.mapM (statusOf s.tables)

/-- Whether an item holds something in a field paired with `corresponding`. -/
def isReferenced (s : Store) (ctx : Context) (id : ItemId) (corresponding : FieldId) :
    Except Error Bool := do
  let v ← s.find ctx id
  let p ← s.tables.itemPackage v.item
  return Pairing.isReferenced p.schema v.item corresponding

/-- The status of an item by the refs listed for its model.  Without refs it is
a draft. -/
def listedStatus (refs : List (ItemId × List (Ref × VersionId))) (id : ItemId) : Status :=
  ((refs.lookup id).map fun rs => .derive (rs.lookup .latest) (rs.lookup .published)).getD .draft

/-- A version as a candidate of a search. -/
def candidate (t : Tables) (refs : List (ItemId × List (Ref × VersionId))) (v : Version) :
    Query.Candidate :=
  ⟨v, listedStatus refs v.item.id,
    v.item.metadataItem.bind fun m => (t.latest? m).map Version.item⟩

/-- The versions that a query over one schema of its model looks at. -/
def candidates (t : Tables) (q : Query) (schema : SchemaId) : List Query.Candidate :=
  let refs := t.refsByModel q.model
  ((t.listByModel q.model q.reference).filter fun v => v.item.schema == schema).map
    (candidate t refs)

/-- A page of the result of a query.  Without a schema it covers the items of
the model and not its metadata items. -/
def search (ctx : Context) (p : Package) (q : Query) (pagination : Query.Pagination) :
    Operation Query.Page := do
  let s ← get
  ctx.ensureActive s.progress
  q.check p
  let schema := q.schema.getD p.schema.id
  let q := { q with schema := some schema }
  let (now, clock) := s.clock.read
  set { s with clock, progress := { s.progress with reads := s.progress.reads + 1 } }
  Query.paginate s.config.maxPageSize (q.select now (candidates s.tables q schema)) pagination

end Store

end ContentStore
