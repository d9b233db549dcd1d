import ContentStore.Embedding.Instances

/-!
# Completing an item

A written item has to carry every required value, at top level and in every
instance it lists.  Completing visits the item's schema and then the schemas of
the listed instances, fills in defaults where a value is absent, and stops at
the first required value that is missing.  A default can list instances too;
these are visited like the others.
-/

namespace ContentStore.Embedding

/-- Fills in the defaults of absent fields of one schema.  The values filled in
before a failure are kept. -/
def fillDefaults (owner : Option InstanceId) :
    List Field → List ItemField → List ItemField × Except Error Unit
  | [], values => (values, .ok ())
  | f :: fs, values =>
    if (valueAt? values ⟨f.id, owner⟩).isSome then fillDefaults owner fs values
    else match f.prepare .null with
      | .error e => (values, .error e)
      | .ok vs =>
        if vs.elements.isEmpty then fillDefaults owner fs values
        else fillDefaults owner fs (values ++ [⟨f.id, f.key, vs, owner⟩])

/-- The instances not seen before, each once, last one first. -/
def newInstances (seen : List InstanceId) : List InstanceId → List InstanceId
  | [] => []
  | i :: is =>
    if seen.contains i then newInstances seen is
    else newInstances (i :: seen) is ++ [i]

/-- The instances to be visited after one schema. -/
def pendingHosts (p : Package) (owner : Option InstanceId) (values : List ItemField) :
    List Field → List InstanceId → List Visit → Except Error (List InstanceId × List Visit)
  | [], seen, pending => .ok (seen, pending)
  | host :: hosts, seen, pending =>
    let listed := ((valueAt? values ⟨host.id, owner⟩).map fun f => f.value.groups).getD []
    if listed.isEmpty then pendingHosts p owner values hosts seen pending
    else match groupSchema p host with
      | .error e => .error e
      | .ok inner =>
        let new := newInstances seen listed
        pendingHosts p owner values hosts (new ++ seen)
          (new.map (fun i => (inner, some i)) ++ pending)

/-- Visits schemas until none is pending, with the values so far. -/
def completeAll (p : Package) :
    Nat → List InstanceId → List Visit → List ItemField → List ItemField × Except Error Unit
  | 0, _, _, values => (values, .ok ())
  | _, _, [], values => (values, .ok ())
  | fuel + 1, seen, (s, owner) :: pending, values =>
    match fillDefaults owner s.fields values with
    | (values, .error e) => (values, .error e)
    | (values, .ok ()) =>
      match pendingHosts p owner values s.groupFields seen pending with
      | .error e => (values, .error e)
      | .ok (seen, pending) => completeAll p fuel seen pending values

/-- The instances that default values of a package list. -/
def listedByDefault (p : Package) : List InstanceId :=
  (p.schema :: p.groups.map Prod.snd).flatMap fun s =>
    s.fields.flatMap fun f => (f.default.map Values.groups).getD []

/-- The values with defaults filled in, and whether all that is required is
there.  Every instance, listed by a value or by a default, is visited once. -/
def complete (p : Package) (values : List ItemField) : List ItemField × Except Error Unit :=
  completeAll p ((listedIn values).length + (listedByDefault p).length + 1) []
    [(p.schema, none)] values

/-- The completed values, or why they cannot be completed. -/
def completed (p : Package) (values : List ItemField) : Except Error (List ItemField) :=
  match complete p values with
  | (values, .ok ()) => .ok values
  | (_, .error e) => .error e

end ContentStore.Embedding
