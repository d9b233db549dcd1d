import ContentStore.Access.Principal
import ContentStore.Rows
import ContentStore.Schema.Basic
import ContentStore.Time.Rfc3339

/-!
# Items

An item is a record: a list of field values with its history's bookkeeping.  A
value stands in a slot, the top-level slot of its field or one of a group
instance.  An instance is live when a group field lists it that stands at top
level or in a live instance; updating merges values in by slot and drops those
of instances that are not live.
-/

namespace ContentStore

open Time (Instant)

/-- The place of a value in an item: a field, at top level or in an instance. -/
structure Slot where
  field : FieldId
  owner : Option InstanceId
  deriving DecidableEq, Repr

/-- The value in one slot of an item, with the key its field had when the
value was written. -/
structure ItemField where
  field : FieldId
  key : String
  value : Values
  group : Option InstanceId
  deriving DecidableEq, Repr

namespace ItemField

/-- The slot the value stands in. -/
def slot (f : ItemField) : Slot := ⟨f.field, f.group⟩

/-- The group instances the value lists, if it is of kind group. -/
def listed (f : ItemField) : List InstanceId :=
  if f.value.kind = .group then f.value.groups else []

end ItemField

/-- The first value in a slot. -/
def valueAt? (fields : List ItemField) (slot : Slot) : Option ItemField :=
  fields.find? fun f => f.slot == slot

/-- Puts a value into its slot: in the place of the one there, or at the end. -/
def putValue (fields : List ItemField) (f : ItemField) : List ItemField :=
  if (valueAt? fields f.slot).isSome then updateFirst (fun g => g.slot == f.slot) (fun _ => f) fields
  else fields ++ [f]

/-- The instances listed by values that stand at top level or in one of the
given instances. -/
def listedBy (fields : List ItemField) (live : List InstanceId) : List InstanceId :=
  distinct ((fields.filter fun f => f.group.all live.contains).flatMap ItemField.listed)

/-- Live instances found by listing from outside in, until no more are found. -/
def liveFrom (fields : List ItemField) : Nat → List InstanceId → List InstanceId
  | 0, live => live
  | fuel + 1, live =>
    let next := listedBy fields live
    if next.length = live.length then live else liveFrom fields fuel next

/-- The live instances of a list of values.  Every round but the last finds
one more at least. -/
def liveInstances (fields : List ItemField) : List InstanceId :=
  liveFrom fields ((fields.flatMap ItemField.listed).length + 1) []

/-- The values without those of instances that are not live. -/
def dropDead (fields : List ItemField) : List ItemField :=
  let live := liveInstances fields
  fields.filter fun f => f.group.all live.contains

/-- Merges values in by slot, one after the other, and drops those of instances
that are not live any more. -/
def mergeValues (fields incoming : List ItemField) : List ItemField :=
  dropDead (incoming.foldl putValue fields)

/-- A record with its bookkeeping. -/
structure Item where
  id : ItemId
  project : ProjectId
  model : ModelId
  schema : SchemaId
  thread : ThreadId
  fields : List ItemField
  metadataItem : Option ItemId
  /-- The item that a metadata item belongs to. -/
  metadataOf : Option ItemId
  createdBy : Principal
  updatedBy : Option Principal
  createdAt : Instant
  deriving DecidableEq, Repr

namespace Item

/-- The top-level value of a field. -/
def field? (it : Item) (id : FieldId) : Option ItemField := valueAt? it.fields ⟨id, none⟩

/-- The value of a field in a group instance. -/
def groupField? (it : Item) (id : FieldId) (group : InstanceId) : Option ItemField :=
  valueAt? it.fields ⟨id, some group⟩

/-- The values of one group instance. -/
def groupFields (it : Item) (group : InstanceId) : List ItemField :=
  it.fields.filter fun f => f.group == some group

/-- Merges values in. -/
def update (it : Item) (incoming : List ItemField) : Item :=
  { it with fields := mergeValues it.fields incoming }

/-- A value without its elements. -/
def cleared (f : ItemField) : ItemField := { f with value := { f.value with elements := [] } }

/-- Empties the top-level value of a field; none if it was empty. -/
def clear? (it : Item) (id : FieldId) : Option Item :=
  match it.field? id with
  | some f =>
    if f.value.elements.isEmpty then none
    else some { it with
      fields := updateFirst (fun g => g.slot == ⟨id, none⟩) cleared it.fields }
  | none => none

/-- Empties all references. -/
def clearReferences (it : Item) : Item :=
  { it with fields := it.fields.map fun f => if f.value.kind = .reference then cleared f else f }

/-- The first item a top-level field refers to. -/
def reference? (it : Item) (id : FieldId) : Option ItemId :=
  ((it.field? id).bind fun f => f.value.first?).bind Value.reference?

/-- The text of the title, unless it is empty. -/
def title? (it : Item) (schema : Schema) : Option String := do
  let f ← it.field? (← schema.title)
  let v ← f.value.first?
  if v.isEmpty then none else some v.toText

/-- All assets of the item, in order. -/
def assets (it : Item) : List AssetId :=
  it.fields.flatMap fun f => f.value.elements.filterMap Value.asset?

/-- All items referred to, each once. -/
def references (it : Item) : List ItemId := distinct (it.fields.flatMap fun f => f.value.references)

/-- The last editor, or the creator of an item never edited. -/
def lastEditor (it : Item) : Principal := it.updatedBy.getD it.createdBy

end Item

instance : Record ItemField where
  toJson f := Record.object [Record.put "field" f.field, Record.put "key" f.key,
    Record.put "value" f.value, Record.putSome "group" f.group]
  ofJson? j := do
    let ms ← Record.members? ["field", "key", "value", "group"] j
    return ⟨← ms.required "field", ← ms.required "key", ← ms.required "value",
      ← ms.optional "group"⟩

instance : Record Item where
  toJson it := .object [("id", toJson it.id), ("project", toJson it.project),
    ("model", toJson it.model), ("schema", toJson it.schema), ("thread", toJson it.thread),
    ("fields", toJson it.fields), ("metadata_item", toJson it.metadataItem),
    ("original_item", toJson it.metadataOf), ("created_by", toJson it.createdBy),
    ("updated_by", toJson it.updatedBy), ("created_at", toJson it.createdAt)]
  ofJson? j := do
    let ms ← Record.members? ["id", "project", "model", "schema", "thread", "fields",
      "metadata_item", "original_item", "created_by", "updated_by", "created_at"] j
    return {
      id := ← ms.required "id"
      project := ← ms.required "project"
      model := ← ms.required "model"
      schema := ← ms.required "schema"
      thread := ← ms.required "thread"
      fields := ← ms.withDefault "fields" []
      metadataItem := ← ms.optional "metadata_item"
      metadataOf := ← ms.optional "original_item"
      createdBy := ← ms.required "created_by"
      updatedBy := ← ms.optional "updated_by"
      createdAt := ← ms.required "created_at" }

end ContentStore
