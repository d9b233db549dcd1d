import ContentStore.Item.Basic
import ContentStore.Schema.Package

/-!
# Assembled items

The values of an item lie side by side; assembling puts those of each group
instance together under the group field that lists the instance, in declared
order, with the groups nested inside.  An instance is shown once, where it is
listed first.  Rendering turns the whole into one object of plain JSON.
-/

namespace ContentStore.Embedding

mutual

/-- One instance of a group: its values in declared order, and the groups
nested in it. -/
inductive Instance where
  | mk (id : InstanceId) (fields : List ItemField) (groups : List Block)

/-- The instances held by one group field. -/
inductive Block where
  | mk (field : FieldId) (key : String) (group : GroupId) (instances : List Instance)

end

/-- The values of an instance, in declared order and without its groups. -/
def instanceValues (fields : List ItemField) (inner : Schema) (i : InstanceId) : List ItemField :=
  (inner.fields.filter fun f => f.group?.isNone).filterMap fun f => valueAt? fields ⟨f.id, some i⟩

/-- The blocks of one owner: one for each group field that has a value and
whose group is known.  `shown` are the instances shown so far; one that is
shown already is left out. -/
def blocks (p : Package) (fields : List ItemField) :
    Nat → Option InstanceId → List Field → List InstanceId → List Block × List InstanceId
  | 0, _, _, shown => ([], shown)
  | depth + 1, owner, hosts, shown =>
    thread (fun host shown =>
      match host.group?, valueAt? fields ⟨host.id, owner⟩ with
      | some g, some listed =>
        match p.groupSchema? g with
        | some inner =>
          let (is, shown) := thread (fun i shown =>
            if shown.contains i then (none, shown)
            else
              let (nested, shown) := blocks p fields depth (some i) inner.groupFields (i :: shown)
              (some (Instance.mk i (instanceValues fields inner i) nested), shown))
            listed.value.groups shown
          (some (Block.mk host.id host.key g is), shown)
        | none => (none, shown)
      | _, _ => (none, shown)) hosts shown

/-- The group instances of an item, put together.  Instances nest at most as
deep as there are instances. -/
def assemble (p : Package) (fields : List ItemField) : List Block :=
  (blocks p fields ((fields.flatMap fun f => f.value.groups).length + 1) none
    p.schema.groupFields []).1

mutual

/-- The written form of an instance; nested groups are left out when there are
none. -/
def Instance.toJson : Instance → Json
  | .mk id fields groups => Record.object [Record.put "id" id, Record.put "fields" fields,
      Record.putNonempty "groups" (blocksToJson groups)]

/-- The written form of a block. -/
def Block.toJson : Block → Json
  | .mk field key group is => .object [("field", Record.toJson field),
      ("key", Record.toJson key), ("group", Record.toJson group),
      ("instances", .array (instancesToJson is))]

def instancesToJson : List Instance → List Json
  | [] => []
  | i :: is => i.toJson :: instancesToJson is

def blocksToJson : List Block → List Json
  | [] => []
  | b :: bs => b.toJson :: blocksToJson bs

end

/-- Members of an object, a later one in the place of an earlier one. -/
def putMembers (members new : List (String × Json)) : List (String × Json) :=
  new.foldl (fun ms m => Json.insertMember m.1 m.2 ms) members

/-- The values of an instance, each under its key, as an array if the group's
schema makes the field multiple. -/
def renderFields (s : Schema) (fields : List ItemField) : List (String × Json) :=
  fields.map fun f =>
    (f.key, f.value.render (((s.field? f.field).map Field.multiple).getD false))

mutual

/-- An instance as plain JSON. -/
def renderInstance (p : Package) (s : Schema) : Instance → Json
  | .mk id fields groups =>
    .object (putMembers (putMembers [("id", .string id.text)] (renderFields s fields))
      (renderBlocks p groups))

def renderInstances (p : Package) (s : Schema) : List Instance → List Json
  | [] => []
  | i :: is => renderInstance p s i :: renderInstances p s is

/-- Blocks as members: an array of instances under the key of the group
field. -/
def renderBlocks (p : Package) : List Block → List (String × Json)
  | [] => []
  | .mk _ key group is :: bs =>
    match p.groupSchema? group with
    | some s => (key, .array (renderInstances p s is)) :: renderBlocks p bs
    | none => renderBlocks p bs

end

/-- The top-level values of an item that are no groups, under the keys that the
schema declares now. -/
def renderTop (p : Package) (it : Item) : List (String × Json) :=
  p.schema.fields.filterMap fun f =>
    match it.field? f.id with
    | some v => if f.group?.isNone then some (f.key, v.value.render f.multiple) else none
    | none => none

/-- An item as plain JSON: its id, its values by key, and its groups. -/
def render (p : Package) (it : Item) : List (String × Json) :=
  putMembers (putMembers [("id", .string it.id.text)] (renderTop p it))
    (renderBlocks p (assemble p it.fields))

end ContentStore.Embedding
