import ContentStore.Store.Basic

/-!
# Publishing

Publishing lets the ref `public` of items name their latest versions;
withdrawing removes it.  No version is made.  Both need an operator who
maintains the workspace of every item.
-/

namespace ContentStore

open Time (Instant)

/-- Which way the ref `public` moves. -/
inductive Publication where
  | publish | withdraw
  deriving DecidableEq, Repr

namespace Publication

/-- The kind of the events it makes. -/
def event : Publication → EventKind
  | publish => .publish
  | withdraw => .unpublish

end Publication

namespace Write

/-- The history of an item, which has to be stored. -/
def history (t : Tables) (id : ItemId) : Except Error History :=
  match t.history? id with
  | some h => .ok h
  | none => .error (.notFound .item id.text)

/-- All items of the list are of one model. -/
def ofOneModel : List Version → Bool
  | v :: w :: vs => v.item.model == w.item.model && ofOneModel (w :: vs)
  | _ => true

/-- The operator maintains the workspace of an item. -/
def checkMaintained (t : Tables) (o : Operator) (v : Version) : Except Error Unit := do
  let p ← t.itemPackage v.item
  o.checkMaintain p.schema.workspace

/-- Moves the ref `public` of one item. -/
def movePublic (o : Operator) (how : Publication) (start : Instant) (h : History) :
    Write Version := do
  let missing : Error := .notFound .item h.item.text
  let moved ← match how with
    | .withdraw => do
      let moved ← h.moveRef .published none
      change fun t => t.deleteRef h.item .published
      pure moved
    | .publish => do
      let some latest := h.latest | throw missing
      let moved ← h.moveRef .published (some latest)
      change fun t => t.setRef h.item .published latest
      pure moved
  let some v := moved.latest? | throw missing
  queue ⟨how.event, v, o, [], [], start⟩
  return v

/-- The body of publishing or withdrawing items. -/
def moveAllPublic (o : Operator) (how : Publication) (ids : List ItemId) :
    Write (List Version) := do
  let t ← tables
  let histories ← (ids.mapM (history t) : Except Error (List History))
  let versions := histories.filterMap History.latest?
  if how = .withdraw ∧ !ofOneModel versions then throw (.misuse .mixedModels)
  (versions.forM (checkMaintained t o) : Except Error Unit)
  let start ← now
  histories.mapM (movePublic o how start)

end Write

namespace Store

/-- Publishes the latest versions of items. -/
def publish (ctx : Context) (ids : List ItemId) : Operation (List Version) :=
  transact ctx (Write.moveAllPublic ctx.operator .publish ids)

/-- Withdraws the published versions of items, which have to be of one
model. -/
def unpublish (ctx : Context) (ids : List ItemId) : Operation (List Version) :=
  transact ctx (Write.moveAllPublic ctx.operator .withdraw ids)

end Store

end ContentStore
