import ContentStore.CommandLine.Request
import ContentStore.Embedding.Assembly
import ContentStore.Json.Reader
import ContentStore.Store.Opening
import ContentStore.Store.Publishing
import ContentStore.Store.Reading
import ContentStore.Yaml.Printer

/-!
# Running commands

A command opens the store, which applies the catalog beside it, does its work
in the name of a user who maintains one workspace, and answers with JSON.  The
answer is written in the format asked for, the members of objects in sorted
order.
-/

namespace ContentStore.CommandLine

/-- Kinds whose values are typed as they are; those of the others are typed as
JSON. -/
def isTypedAsText : Kind → Bool
  | .bool | .checkbox | .integer | .group => false
  | _ => true

/-- A typed value is taken as text if its field holds one value of a textual
kind.  Otherwise it is read as JSON, and taken as text if it is none.  With
`asJson` it has to be JSON. -/
def typedValue (p : Package) (asJson : Bool) (f : TypedField) : Except Error Json :=
  let asText := (p.schema.fieldByKey? f.1).any fun x => !x.multiple && isTypedAsText x.kind
  match Json.parse? f.2 with
  | some j => .ok (if asText && !asJson then .string f.2 else j)
  | none => if asJson then .error (.misuse (.fieldNotJson f.1)) else .ok (.string f.2)

/-- Input for the fields typed. -/
def rawFields (p : Package) (asJson : Bool) (fields : List TypedField) :
    Except Error (List RawField) :=
  fields.mapM fun f => (typedValue p asJson f).map (RawField.byKey f.1)

/-- A version with its values by key. -/
def showWith (p : Package) (v : Version) : Json :=
  .object [("id", toJson v.item.id), ("version", toJson v.id), ("parents", toJson v.parents),
    ("model", toJson v.item.model), ("created_at", toJson v.item.createdAt),
    ("updated_at", toJson v.timestamp), ("metadata_item", toJson v.item.metadataItem),
    ("fields", .object ((Embedding.render p v.item).filter fun m => m.1 != "id"))]

/-- A version, read with the package it was written against. -/
def showVersion (t : Tables) (v : Version) : Except Error Json :=
  (t.itemPackage v.item).map fun p => showWith p v

/-- Versions in order. -/
def showVersions (t : Tables) (vs : List Version) : Except Error Json :=
  (vs.mapM (showVersion t)).map .array

/-- A model with the number of its items. -/
def showModel (s : Store) (ctx : Context) (m : Model) : Except Error Json := do
  let n ← s.count ctx m.id
  match toJson m with
  | .object ms => return .object (ms ++ [("item_count", .ofNat n)])
  | j => return j

/-- A found item with its status. -/
def showCandidate (p : Package) (c : Query.Candidate) : Json :=
  match showWith p c.version with
  | .object ms => .object (ms ++ [("status", toJson c.status)])
  | j => j

/-- A sort may name a field by its key. -/
def resolveSort (p : Package) (raw : String) : Except Error Query.SortKey := do
  let sort ← Query.parseSort raw
  match sort.field.field.bind fun id => p.schema.fieldByKey? id.text with
  | some f => return { sort with field := .ofField f.id }
  | none => return sort

/-- Reads a filter. -/
def readFilter (raw : String) : Except Error Query.Condition :=
  match (Json.read? raw).bind ofJson? with
  | some c => .ok c
  | none => .error (.misuse .invalidFilter)

/-- The version an update expects. -/
def readVersion (raw : String) : Except Error VersionId :=
  match VersionId.parse? raw with
  | some v => .ok v
  | none => .error (.misuse (.invalidVersion raw))

namespace Request

/-- The user, who maintains the workspace. -/
def context (r : Request) : Context := .steady ⟨.user r.user, [], [r.workspace]⟩

/-- One version for one id, otherwise a list. -/
def getItems (s : Store) (ctx : Context) (ids : List ItemId) (published : Bool) :
    Except Error Json := do
  match ids, published with
  | [id], false => showVersion s.tables (← s.find ctx id)
  | [id], true => showVersion s.tables (← s.findPublic ctx id)
  | ids, false => showVersions s.tables (← s.findMany ctx ids)
  | ids, true => showVersions s.tables (← ids.mapM (s.findPublic ctx))

/-- What deleting an item would delete. -/
def previewDeletion (s : Store) (ctx : Context) (id : ItemId) : Except Error Json := do
  let v ← s.find ctx id
  let versions ← s.history ctx id
  return .object [("dry_run", .bool true),
    ("would_delete", .object [("id", toJson id), ("versions", .ofNat versions.length),
      ("metadata_item", toJson v.item.metadataItem)]),
    ("assets", toJson v.item.assets), ("item", ← showVersion s.tables v)]

/-- Does the work of a command on an open store. -/
def perform (r : Request) : Operation Json := do
  let ctx := r.context
  let s ← get
  match r.command with
  | .models => (Json.array <$> (s.tables.listModels (some r.project)).mapM (showModel s ctx) :
      Except Error Json)
  | .get ids published => getItems s ctx ids published
  | .history id => showVersions s.tables (← s.history ctx id)
  | .create model fields asJson metadata =>
    let m ← s.modelByKey r.project model
    let p ← s.tables.package m.id
    let v ← Store.createItem ctx ⟨m.id, ← rawFields p asJson fields, metadata⟩
    showVersion (← get).tables v
  | .update id fields asJson version =>
    let version ← (version.mapM readVersion : Except Error (Option VersionId))
    let current ← s.find ctx id
    let p ← s.tables.itemPackage current.item
    let v ← Store.updateItem ctx ⟨id, version, ← rawFields p asJson fields, none⟩
    showVersion (← get).tables v
  | .delete id true => previewDeletion s ctx id
  | .delete id false =>
    Store.deleteItem ctx id
    return .object [("ok", .bool true), ("deleted", toJson id)]
  | .publish ids =>
    let vs ← Store.publish ctx ids
    showVersions (← get).tables vs
  | .unpublish ids =>
    let vs ← Store.unpublish ctx ids
    showVersions (← get).tables vs
  | .search model keyword filter sort published offset limit =>
    let m ← s.modelByKey r.project model
    let p ← s.tables.package m.id
    let filter ← (filter.mapM readFilter : Except Error (Option Query.Condition))
    let sort ← (sort.mapM (resolveSort p) : Except Error (Option Query.SortKey))
    let reference := if published then .published else .latest
    let page ← Store.search ctx p { Query.ofModel r.project m.id with keyword, filter, sort, reference }
      (.offset offset (limit.getD s.config.defaultPageSize))
    return .object [("items", .array (page.items.map (showCandidate p))),
      ("page_info", page.info.toJson)]
  | .status ids =>
    let statuses ← s.status ctx ids
    return .object (statuses.map fun e => (e.1.text, toJson e.2))

/-- Opens the store and does the work of the command. -/
def run (catalog : Option String) (r : Request) : Operation Json := do
  Store.openWith none catalog
  perform r

end Request

/-- Writes an answer. -/
def Format.write (f : Format) (j : Json) : String :=
  match f with
  | .yaml => Yaml.print j.settle
  | .json => j.settle.pretty ++ "\n"

/-- How a run of the program ends. -/
inductive Outcome where
  | answer (text : String)
  | failure (e : Error)
  | stopped (why : Stop)

namespace Outcome

/-- Failures and misuse of the arguments have codes of their own. -/
def exitCode : Outcome → Nat
  | answer _ => 0
  | failure _ => 1
  | stopped .misuse => 2
  | stopped _ => 0

/-- The version of the program. -/
def versionText : String := "itemstore 0.3.0\n"

/-- How the program is called. -/
def helpText : String :=
  "Usage: itemstore [--data-dir <path>] [--format yaml|json] [--project <id>]\n" ++
  "                 [--workspace <id>] [--user <id>] [--log-events] <command>\n\n" ++
  "Commands:\n" ++
  "  models                                        list the models of the project\n" ++
  "  get <ids> [--public]                          show items\n" ++
  "  history <id>                                  show all versions of an item\n" ++
  "  create <model> [--field <key>=<value>] [--json] [--metadata <id>]\n" ++
  "  update <id> [--field <key>=<value>] [--json] [--version <version>]\n" ++
  "  delete <id> [--dry-run]\n" ++
  "  publish <ids>\n" ++
  "  unpublish <ids>\n" ++
  "  search <model> [--keyword <text>] [--filter <condition>] [--sort <field>[:asc|desc]]\n" ++
  "         [--public] [--offset <count>] [--limit <count>]\n" ++
  "  status <ids>                                  show the status of items\n"

/-- The line that tells a failure. -/
def failureText (e : Error) : String := "ERROR:" ++ e.code.text ++ ":" ++ e.message

end Outcome

/-- Runs a request on a store. -/
def execute (catalog : Option String) (r : Request) (s : Store) : Outcome × Store :=
  match r.run catalog s with
  | (.ok j, s) => (.answer (r.format.write j), s)
  | (.error e, s) => (.failure e, s)

end ContentStore.CommandLine
