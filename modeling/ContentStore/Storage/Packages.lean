import ContentStore.Embedding.Cycles
import ContentStore.Storage.Tables

/-!
# Packages of stored models

The package of a model is put together from the tables: its schemas, the
groups reached from them through group fields, each once, and the schemas that
references in all of these point into, each once.
-/

namespace ContentStore.Tables

/-- Loads the groups of a stack, top first, and those embedded in them.  A
group loaded already is not loaded again. -/
def loadGroups (t : Tables) :
    Nat → List GroupId → List (Group × Schema) → Except Error (List (Group × Schema))
  | 0, _, loaded => .ok loaded
  | _, [], loaded => .ok loaded
  | fuel + 1, id :: stack, loaded =>
    if loaded.any fun g => g.1.id == id then loadGroups t fuel stack loaded
    else do
      let g ← t.group id
      let s ← t.schema g.schema
      loadGroups t fuel (s.embedded.reverse ++ stack) (loaded ++ [(g, s)])

/-- Number of embeddings in the schemas of stored groups. -/
def embeddings (t : Tables) : Nat :=
  (t.groups.map fun g => ((t.schema? g.schema).map fun s => s.embedded.length).getD 0).foldr (· + ·) 0

/-- All groups embedded in some schemas, at any depth.  Every group is loaded
once, which bounds the number of steps. -/
def embeddedGroups (t : Tables) (schemas : List Schema) : Except Error (List (Group × Schema)) :=
  let stack := (schemas.flatMap Schema.embedded).reverse
  t.loadGroups (stack.length + t.embeddings) stack []

/-- Loads the schemas of the given ids that are not loaded yet.  The schema
`own` is at hand. -/
def loadReferenced (t : Tables) (own : Schema) :
    List SchemaId → List Schema → Except Error (List Schema)
  | [], loaded => .ok loaded
  | id :: ids, loaded =>
    if loaded.any fun s => s.id == id then loadReferenced t own ids loaded
    else if id = own.id then loadReferenced t own ids (loaded ++ [own])
    else do
      let s ← t.schema id
      loadReferenced t own ids (loaded ++ [s])

/-- The schemas that the reference fields of a schema point into. -/
def referenceTargets (s : Schema) : List SchemaId :=
  s.referenceFields.filterMap fun f => f.target?.map Prod.snd

/-- The package of a model. -/
def package (t : Tables) (id : ModelId) : Except Error Package := do
  let model ← t.model id
  let schema ← t.schema model.schema
  let metadataSchema ← model.metadataSchema.mapM t.schema
  let own := schema :: metadataSchema.toList
  let groups ← t.embeddedGroups own
  let referenced ← t.loadReferenced schema
    ((own ++ groups.map Prod.snd).flatMap referenceTargets) []
  return { model, schema, metadataSchema, groups, referenced }

/-- The package of the metadata items of a model. -/
def metadataPackage (p : Package) : Except Error Package :=
  match p.metadata? with
  | some p => .ok p
  | none => .error (.misuse (.noMetadataSchema p.model.key))

/-- The package an item was written against: that of its model, or of the
model's metadata items. -/
def itemPackage (t : Tables) (it : Item) : Except Error Package := do
  let p ← t.package it.model
  if p.schema.id = it.schema then return p else metadataPackage p

/-- The groups stored, as far as their schemas can be loaded. -/
def knownGroups (t : Tables) : Embedding.Groups :=
  ⟨t.groups.map fun g => (g.id, t.schema g.schema), fun id => .notFound .group id.text⟩

end ContentStore.Tables
