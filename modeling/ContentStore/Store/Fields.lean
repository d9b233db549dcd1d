import ContentStore.Catalog.Param
import ContentStore.Embedding.Cycles
import ContentStore.Schema.Validation
import ContentStore.Store.Basic

/-!
# Fields of stored schemas

Creating, changing and deleting fields.  A reference field with a mirror is
two-way: the mirror is a field of the target schema that points back, and both
are created, described and deleted together.  A group field never lets a group
contain itself.  The kind of a field never changes, and a reference never
turns from one-way to two-way or back.
-/

namespace ContentStore

namespace Tables

/-- The default that raw input stands for; null stands for none. -/
def defaultOf (f : Field) (raw : Json) : Except Error (Option Values) :=
  if raw.isNull then .ok none
  else (liftValue f.key (Values.coerce f.kind raw)).map some

/-- The model a reference points at has to be stored and to own the schema it
points into. -/
def checkReference (t : Tables) (model : ModelId) (schema : SchemaId) : Except Error Unit := do
  let target ← t.model model
  if target.schema ≠ schema then throw (.misuse (.schemaNotOfModel schema target.key))

/-- Embedding the group into the schema closes no cycle. -/
def checkAcyclic (t : Tables) (host : SchemaId) (group : GroupId) : Except Error Unit :=
  (Embedding.ensureAcyclic t.knownGroups host group).map fun _ => ()

/-- Adds a mirror to the schema at the other end. -/
def addMirror (s : Schema) (mirror : Field) : Except Error Schema :=
  if s.hasKey mirror.key then .error (.schema (.targetKeyTaken mirror.key))
  else liftSchema (s.addField mirror)

/-- Renames and describes a mirror. -/
def describeMirror (s : Schema) (id : FieldId) (m : Mirror) : Except Error Schema := do
  let some current := s.field? id | throw (.schema (.fieldNotFound id))
  let s ← if m.key = current.key then .ok s
    else if s.hasKey m.key then .error (.schema (.targetKeyTaken m.key))
    else liftSchema (s.setKey id m.key)
  return s.setField id { current with
    key := m.key
    name := m.name.getD current.name
    description := m.description
    required := m.required }

/-- The type a field is to have: of the same kind, and for a reference of the
same direction. -/
def newType (t : Tables) (s : Schema) (current : Field) : Option FieldType → Except Error FieldType
  | none => .ok current.type
  | some type =>
    if type.kind ≠ current.kind then .error (.schema .kindChanged)
    else match current.type, type with
      | .reference model schema mirror, .reference model' schema' mirror' =>
        if mirror.isSome ≠ mirror'.isSome then .error (.schema .directionChanged)
        else if mirror.isSome ∧ (model ≠ model' ∨ schema ≠ schema') then
          .error (.schema .targetChanged)
        else (t.checkReference model' schema').map fun _ => .reference model' schema' mirror
      | .group g, .group g' =>
        if g = g' then .ok type else (t.checkAcyclic s.id g').map fun _ => type
      | _, _ => .ok type

/-- Whether a field is to be multiple, which a two-way reference never is. -/
def newMultiple (f : Field) : Option Bool → Except Error Bool
  | none => .ok f.multiple
  | some multiple =>
    if multiple && f.isTwoWay then .error (.schema .multipleTwoWay) else .ok multiple

/-- The default a field is to have. -/
def newDefault (f : Field) : Option Json → Except Error (Option Values)
  | none => .ok f.default
  | some raw => defaultOf f raw

/-- A field with all changes but that of its key. -/
def editField (t : Tables) (s : Schema) (current : Field) (edit : FieldEdit) :
    Except Error Field := do
  let type ← t.newType s current edit.type
  if edit.mirror.isSome ∧ !current.isTwoWay then throw (.schema .directionChanged)
  let f := { current with
    type
    name := edit.name.getD current.name
    description := edit.description.getD current.description }
  let multiple ← newMultiple f edit.multiple
  let f := { f with
    multiple
    required := edit.required.getD f.required
    unique := edit.unique.getD f.unique
    order := edit.order.getD f.order }
  let f := { f with default := ← newDefault f edit.default }
  f.checkDefault
  return f

/-- Sets or clears the title as a change asks for.  A field that stays the
title has to hold a single value. -/
def editTitle (s : Schema) (f : Field) : Option Bool → Except Error Schema
  | some true => liftSchema (s.setTitle (some f.id))
  | some false =>
    if s.title = some f.id then liftSchema (s.setTitle none) else .ok s
  | none =>
    if s.title = some f.id ∧ f.multiple then .error (.schema .invalidTitle) else .ok s

/-- Describes the other end of a changed two-way reference, in the schema
itself or in another stored one. -/
def editMirror (t : Tables) (s : Schema) (f : Field) (mirror : Option Mirror) :
    Except Error (Tables × Schema) :=
  match mirror, f.corresponding?, f.target? with
  | some m, some id, some (_, target) =>
    if target = s.id then (describeMirror s id m).map fun s => (t, s)
    else do
      let other ← t.schema target
      let other ← describeMirror other id m
      return (t.saveSchema other, s)
  | _, _, _ => .ok (t, s)

/-- Changes a field of a schema that is not saved yet. -/
def applyEdit (t : Tables) (s : Schema) (edit : FieldEdit) : Except Error (Tables × Schema) := do
  let some current := s.field? edit.field | throw (.schema (.fieldNotFound edit.field))
  let f ← t.editField s current edit
  let (f, s) ← match edit.key with
    | none => .ok (f, s)
    | some key => (liftSchema (s.setKey f.id key)).map fun s => ({ f with key }, s)
  let s ← editTitle (s.setField f.id f) f edit.isTitle
  t.editMirror s f edit.mirror

/-- Makes several changes, one after the other. -/
def applyEdits (t : Tables) (s : Schema) : List FieldEdit → Except Error (Tables × Schema)
  | [] => .ok (t, s)
  | edit :: edits => do
    let (t, s) ← t.applyEdit s edit
    applyEdits t s edits

/-- The fields of some ids, all of which have to be there. -/
def fieldsOf (s : Schema) (ids : List FieldId) : Except Error (List Field) :=
  ids.mapM fun id => match s.field? id with
    | some f => .ok f
    | none => .error (.schema (.fieldNotFound id))

/-- Changes fields of a stored schema.  When an order number is given, the
fields are put into order again. -/
def updateFields (t : Tables) (id : SchemaId) (edits : List FieldEdit) :
    Except Error (Tables × List Field) := do
  let s ← t.schema id
  let (t, s) ← t.applyEdits s edits
  let s := if edits.any fun e => e.order.isSome then s.normalizeOrder else s
  let fields ← fieldsOf s (edits.map FieldEdit.field)
  return (t.saveSchema s, fields)

/-- The other end of a deleted two-way reference goes with it.  In another
schema it may be gone already. -/
def deleteMirror (t : Tables) (s : Schema) (removed : Field) : Except Error (Tables × Schema) :=
  match removed.corresponding?, removed.target? with
  | some id, some (_, target) =>
    if target = s.id then (liftSchema (s.removeField id)).map fun r => (t, r.2)
    else do
      let other ← t.schema target
      match other.removeField id with
      | .ok (_, other) => return (t.saveSchema other, s)
      | .error _ => return (t, s)
  | _, _ => .ok (t, s)

/-- Deletes a field of a stored schema. -/
def deleteField (t : Tables) (id : SchemaId) (field : FieldId) : Except Error Tables := do
  let s ← t.schema id
  let (removed, s) ← liftSchema (s.removeField field)
  let (t, s) ← t.deleteMirror s removed
  return t.saveSchema s.normalizeOrder

/-- A new field as the input describes it, one-way if it is a reference. -/
def newField (param : NewField) (id : FieldId) : Except Error Field := do
  let f : Field := {
    id
    key := param.key
    name := param.name.getD param.key
    description := param.description
    type := param.type
    multiple := param.multiple
    required := param.required
    unique := param.unique
    default := none
    order := 0 }
  let f := { f with default := ← newDefault f param.default }
  f.checkDefault
  return f.withCorresponding none

/-- The new field with the mirror the input asks for, and the schema the
mirror belongs to. -/
def newMirror (t : Tables) (s : Schema) (f : Field) (param : NewField) (id : FieldId) :
    Except Error (Field × Option (SchemaId × Field)) :=
  match f.target?, param.mirror with
  | none, none => .ok (f, none)
  | none, some _ => .error (.misuse (.notAReference param.key))
  | some (model, target), mirror => do
    t.checkReference model target
    match mirror with
    | none => return (f, none)
    | some m =>
      if f.multiple then throw (.schema .multipleTwoWay)
      let some host := t.modelOfSchema? s.id | throw (.misuse .twoWayOutsideModel)
      return (f.withCorresponding (some id), some (target, {
        id
        key := m.key
        name := m.name.getD m.key
        description := m.description
        type := .reference host.id s.id (some f.id)
        multiple := false
        required := m.required
        unique := false
        default := none
        order := 0 }))

/-- Saves a mirror with the schema it belongs to, unless that is the schema
being changed. -/
def saveMirror (t : Tables) (s : Schema) : Option (SchemaId × Field) → Except Error (Tables × Schema)
  | none => .ok (t, s)
  | some (target, mirror) =>
    if target = s.id then (addMirror s mirror).map fun s => (t, s)
    else do
      let other ← t.schema target
      let other ← addMirror other mirror
      return (t.saveSchema other, s)

/-- Adds a field to a stored schema, and its mirror to the schema at the other
end.  `id` and `mirrorId` are fresh. -/
def createField (t : Tables) (param : NewField) (id mirrorId : FieldId) :
    Except Error (Tables × Field) := do
  let s ← t.schema param.schema
  let f ← newField param id
  match f.group? with
  | some g => t.checkAcyclic s.id g
  | none => pure ()
  let (f, mirror) ← t.newMirror s f param mirrorId
  let s ← liftSchema (s.addField f)
  let (t, s) ← t.saveMirror s mirror
  let s ← if param.isTitle then liftSchema (s.setTitle (some f.id)) else .ok s
  return (t.saveSchema s, f)

end Tables

namespace Write

/-- Changes the tables by a step that may fail. -/
def step {α : Type} (f : Tables → Except Error (Tables × α)) : Write α := do
  let (t, a) ← f (← tables)
  change fun _ => t
  return a

end Write

namespace Store

/-- Runs a write of an operator who maintains the workspace of a schema. -/
def maintaining {α : Type} (ctx : Context) (schema : SchemaId) (body : Write α) : Operation α := do
  let s ← (← get).tables.schema schema
  ctx.operator.checkMaintain s.workspace
  transact ctx body

/-- Adds a field to a schema. -/
def createField (ctx : Context) (param : NewField) : Operation Field :=
  maintaining ctx param.schema do
    let id ← Write.freshId
    let mirrorId ← Write.freshId
    Write.step fun t => t.createField param id mirrorId

/-- Changes several fields of a schema. -/
def updateFields (ctx : Context) (schema : SchemaId) (edits : List FieldEdit) :
    Operation (List Field) :=
  maintaining ctx schema (Write.step fun t => t.updateFields schema edits)

/-- Changes one field of a schema. -/
def updateField (ctx : Context) (schema : SchemaId) (edit : FieldEdit) : Operation Field := do
  match (← updateFields ctx schema [edit]).getLast? with
  | some f => return f
  | none => throw (.misuse .noFieldUpdated)

/-- Deletes a field of a schema. -/
def deleteField (ctx : Context) (schema : SchemaId) (field : FieldId) : Operation Unit :=
  maintaining ctx schema
    (Write.step fun t => (t.deleteField schema field).map fun t => (t, ()))

end Store

end ContentStore
