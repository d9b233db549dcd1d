import ContentStore.Item.Param
import ContentStore.Schema.Package
import ContentStore.Schema.Validation

/-!
# Group instances of an item

A group field lists the ids of its instances, and each instance has values of
its own, which follow the schema of the group.  Instances can be listed at top
level or by group fields of other instances.  This module finds the schema of
every instance (`instanceSchemas`) and turns raw input into values
(`valuesOfRaw`); input for an instance is read with the schema of the group
that lists the instance, in the input or in the item as it is stored.
-/

namespace ContentStore.Embedding

/-- The schema of the group a field embeds. -/
def groupSchema (p : Package) (host : Field) : Except Error Schema :=
  match host.group? with
  | none => .error (.misuse (.notAGroup host.key))
  | some g => match p.groupSchema? g with
    | some s => .ok s
    | none => .error (.notFound .group g.text)

/-- Instances found so far, each with its schema. -/
abbrev Found := List (InstanceId × Schema)

/-- Adds an instance.  One that is there already keeps its place and takes the
new schema. -/
def Found.insert (found : Found) (i : InstanceId) (s : Schema) : Found :=
  if (found.lookup i).isSome then updateFirst (fun e => e.1 == i) (fun _ => (i, s)) found
  else found ++ [(i, s)]

/-- A schema whose group fields are still to be looked at, with the instance
its values belong to. -/
abbrev Visit := Schema × Option InstanceId

/-- Adds instances listed by one group field.  The new ones are still to be
visited, the last one first. -/
def addInstances (inner : Schema) (found : Found) (pending : List Visit) :
    List InstanceId → Found × List Visit
  | [] => (found, pending)
  | i :: is =>
    let pending := if (found.lookup i).isSome then pending else (inner, some i) :: pending
    addInstances inner (found.insert i inner) pending is

/-- The value of a group field, among new values first and stored ones
after. -/
def listing? (values stored : List ItemField) (slot : Slot) : Option ItemField :=
  (valueAt? values slot).or (valueAt? stored slot)

/-- Looks at the group fields of one schema. -/
def visitHosts (p : Package) (values stored : List ItemField) (owner : Option InstanceId) :
    List Field → Found → List Visit → Except Error (Found × List Visit)
  | [], found, pending => .ok (found, pending)
  | host :: hosts, found, pending =>
    match listing? values stored ⟨host.id, owner⟩ with
    | none => visitHosts p values stored owner hosts found pending
    | some listed =>
      match groupSchema p host with
      | .error e => .error e
      | .ok inner =>
        let (found, pending) := addInstances inner found pending listed.value.groups
        visitHosts p values stored owner hosts found pending

/-- Visits schemas until none is pending. -/
def visitAll (p : Package) (values stored : List ItemField) :
    Nat → Found → List Visit → Except Error Found
  | 0, found, _ => .ok found
  | _, found, [] => .ok found
  | fuel + 1, found, (s, owner) :: pending =>
    match visitHosts p values stored owner s.groupFields found pending with
    | .error e => .error e
    | .ok (found, pending) => visitAll p values stored fuel found pending

/-- All instances that values list. -/
def listedIn (values : List ItemField) : List InstanceId :=
  values.flatMap fun f => f.value.groups

/-- The instances reached from the top level through group fields, at any
depth, each with the schema its values follow.  Every instance is visited
once, which bounds the number of visits. -/
def instanceSchemas (p : Package) (values stored : List ItemField) : Except Error Found :=
  visitAll p values stored ((listedIn values).length + (listedIn stored).length + 1) []
    [(p.schema, none)]

/-- The field that input names. -/
def fieldOf (s : Schema) (raw : RawField) : Except Error Field :=
  match s.fieldNamed? raw.field raw.key with
  | some f => .ok f
  | none => .error (.misuse (.unknownField raw.describe))

/-- The value that input gives to a field of the schema. -/
def valueOf (s : Schema) (raw : RawField) : Except Error ItemField := do
  let f ← fieldOf s raw
  let vs ← f.prepare raw.value
  return ⟨f.id, f.key, vs, raw.group⟩

/-- One round over input for instances: the values of those whose instance is
known, and the input that is left. -/
def resolveRound (found : Found) :
    List RawField → Except Error (List ItemField × List RawField)
  | [] => .ok ([], [])
  | raw :: rest =>
    match raw.group.bind (found.lookup ·) with
    | none => (resolveRound found rest).map fun r => (r.1, raw :: r.2)
    | some s =>
      match valueOf s raw with
      | .error e => .error e
      | .ok v => (resolveRound found rest).map fun r => (v :: r.1, r.2)

/-- Rounds over input for instances, until all of it is resolved or a round
resolves nothing.  Instances of instances become known once the values that
list them are in. -/
def resolveRounds (p : Package) (stored : List ItemField) :
    Nat → List ItemField → List RawField → Except Error (List ItemField)
  | _, values, [] => .ok values
  | 0, values, _ => .ok values
  | fuel + 1, values, raw :: rest => do
    let found ← instanceSchemas p values stored
    let (new, left) ← resolveRound found (raw :: rest)
    if left.length = (raw :: rest).length then
      throw (.misuse (.instanceNotListed ((raw.group.map Id.text).getD "")))
    resolveRounds p stored fuel (values ++ new) left

/-- The values that raw input gives to an item: first those of the top level,
then those of instances as they become known.  `stored` are the values of the
item so far. -/
def valuesOfRaw (p : Package) (input : List RawField) (stored : List ItemField) :
    Except Error (List ItemField) := do
  let top ← (input.filter fun r => r.group.isNone).mapM (valueOf p.schema)
  let inner := input.filter fun r => r.group.isSome
  resolveRounds p stored inner.length top inner

end ContentStore.Embedding
