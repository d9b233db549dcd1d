import ContentStore.Error
import ContentStore.Item.Basic
import ContentStore.Version.Ref

/-!
# Histories

The history of an item is the list of its versions, oldest first, with the
versions its refs name.  Writing appends a version whose parent is the latest
one; publishing only moves a ref.  Every version lists the refs that name it,
so that it can be shown on its own; these lists are made anew from the refs
after every change.
-/

namespace ContentStore

open Time (Instant)

/-- A snapshot of an item.  `refs` are the refs that named it when it was
read. -/
structure Version where
  id : VersionId
  parents : List VersionId
  refs : List Ref
  timestamp : Instant
  item : Item
  deriving DecidableEq, Repr

instance : Record Version where
  toJson v := .object [("version", toJson v.id), ("parents", toJson v.parents),
    ("refs", toJson v.refs), ("timestamp", toJson v.timestamp), ("item", toJson v.item)]
  ofJson? j := do
    let ms ← Record.members? ["version", "parents", "refs", "timestamp", "item"] j
    return ⟨← ms.required "version", ← ms.withDefault "parents" [], ← ms.withDefault "refs" [],
      ← ms.required "timestamp", ← ms.required "item"⟩

/-- The versions of one item, oldest first, and the targets of its refs. -/
structure History where
  item : ItemId
  versions : List Version
  latest : Option VersionId
  published : Option VersionId
  deriving DecidableEq, Repr

namespace History

/-- A history without versions. -/
def empty (item : ItemId) : History := ⟨item, [], none, none⟩

/-- The version a ref names. -/
def target? (h : History) : Ref → Option VersionId
  | .latest => h.latest
  | .published => h.published

/-- Lets a ref name a version, or none. -/
def setTarget (h : History) (r : Ref) (v : Option VersionId) : History :=
  match r with
  | .latest => { h with latest := v }
  | .published => { h with published := v }

/-- The refs that name a version. -/
def refsOf (h : History) (v : VersionId) : List Ref := Ref.all.filter fun r => h.target? r == some v

/-- Makes the lists of refs of all versions anew. -/
def syncRefs (h : History) : History :=
  { h with versions := h.versions.map fun v => { v with refs := h.refsOf v.id } }

/-- A history from stored versions, oldest first, and stored refs.  Of two
entries for one ref the last counts. -/
def ofParts (item : ItemId) (versions : List Version) (refs : List (Ref × VersionId)) : History :=
  let h : History := { empty item with versions }
  (refs.foldl (fun (h : History) r => h.setTarget r.1 (some r.2)) h).syncRefs

def isEmpty (h : History) : Bool := h.versions.isEmpty

/-- The version of an id. -/
def version? (h : History) (id : VersionId) : Option Version := h.versions.find? fun v => v.id == id

/-- The version that a ref names. -/
def findByRef? (h : History) (r : Ref) : Option Version := (h.target? r).bind h.version?

def latest? (h : History) : Option Version := h.findByRef? .latest

def status (h : History) : Status := .derive h.latest h.published

/-- Appends a snapshot after the latest version and moves `latest` to it.  An
expected version has to be the latest one.  `fresh` is the id of the new
version. -/
def append (h : History) (item : Item) (timestamp : Instant) (expected : Option VersionId)
    (fresh : VersionId) : Except Error (History × Version) := do
  if item.id ≠ h.item then throw (.misuse (.foreignItem item.id h.item))
  match expected, h.latest with
  | none, _ => pure ()
  | some e, some actual => if actual ≠ e then throw (.conflict h.item e actual)
  | some e, none => throw (.notFound .version e.toText)
  let v : Version := ⟨fresh, h.latest.toList, [], timestamp, item⟩
  let h' := { h with versions := h.versions ++ [v], latest := some fresh }.syncRefs
  return (h', { v with refs := h'.refsOf fresh })

/-- Lets a ref name another version, or removes it.  No version is made, and
`latest` is never removed. -/
def moveRef (h : History) (r : Ref) (target : Option VersionId) : Except Error History :=
  match target, r with
  | some v, r =>
    if (h.version? v).isSome then .ok (h.setTarget r (some v)).syncRefs
    else .error (.notFound .version v.toText)
  | none, .latest => .error (.misuse .latestIsFixed)
  | none, r => .ok (h.setTarget r none).syncRefs

end History

end ContentStore
