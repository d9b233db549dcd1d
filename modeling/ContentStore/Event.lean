import ContentStore.Access.Operator
import ContentStore.Item.Change
import ContentStore.Version.History

/-!
# Events

Every write of an item makes one event for each item it was asked to write;
items that merely follow a write make none.  The events of a write are handed
to the emitter after its changes are kept, in the order in which they arose.
An emitter may refuse an event; that does not matter to the write.
-/

namespace ContentStore

open Time (Instant)

/-- What happened to an item. -/
inductive EventKind where
  | create | update | delete | publish | unpublish
  deriving DecidableEq, Repr

namespace EventKind

def name : EventKind → String
  | create => "item.create"
  | update => "item.update"
  | delete => "item.delete"
  | publish => "item.publish"
  | unpublish => "item.unpublish"

end EventKind

/-- A write of an item.  `version` is the version it is about, for a delete the
last one. -/
structure Event where
  kind : EventKind
  version : Version
  operator : Operator
  /-- What an update changed. -/
  changes : List Change
  /-- The latest versions of the items referred to by a created or updated
  one. -/
  referenced : List Version
  timestamp : Instant
  deriving DecidableEq, Repr

namespace Event

/-- The written form of an event. -/
def toJson (e : Event) : Json :=
  Record.object [some ("kind", .string e.kind.name), Record.put "item" e.version,
    Record.put "operator" e.operator,
    Record.putNonempty "changes" (e.changes.map Change.toJson),
    Record.putNonempty "referenced_items" (e.referenced.map Record.toJson),
    Record.put "timestamp" e.timestamp]

end Event

/-- Why an event was not taken. -/
structure EmitError where
  reason : String
  deriving DecidableEq, Repr

/-- Where events go. -/
inductive Emitter where
  /-- Nobody listens. -/
  | silent
  /-- A channel that nobody receives from any more. -/
  | closed
  /-- A channel with the events not yet received, the first one first. -/
  | channel (waiting : List Event)
  /-- A receiver of the caller's own, with the events it was handed, the first one
  first, and why it will refuse each of those that come next, if it does.  It takes
  all after these. -/
  | custom (handed : List Event) (refusals : List (Option EmitError))
  deriving DecidableEq, Repr

namespace Emitter

/-- Hands one event over, which may not be taken. -/
def emit (event : Event) : ExceptT EmitError (StateM Emitter) Unit := fun
  | silent => (.ok (), silent)
  | closed => (.error ⟨"receiver dropped"⟩, closed)
  | channel waiting => (.ok (), channel (waiting ++ [event]))
  | custom handed refusals =>
    let answer := match refusals.headD none with
      | some e => .error e
      | none => .ok ()
    (answer, custom (handed ++ [event]) refusals.tail)

/-- Hands events over in order.  One that is not taken is at most worth a line in a
log; the others are handed over all the same. -/
def dispatch : List Event → Emitter → Emitter
  | [], e => e
  | event :: events, e =>
    match emit event e with
    | (.ok (), e) => dispatch events e
    | (.error _, e) => dispatch events e

/-- The events waiting to be received, and the emitter without them. -/
def receive : Emitter → List Event × Emitter
  | silent => ([], silent)
  | closed => ([], closed)
  | channel waiting => (waiting, channel [])
  | custom handed refusals => ([], custom handed refusals)

end Emitter

end ContentStore
