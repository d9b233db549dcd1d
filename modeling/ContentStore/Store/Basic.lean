import ContentStore.Access.Context
import ContentStore.Event
import ContentStore.Query.Page
import ContentStore.Storage.Packages
import ContentStore.Storage.Session
import ContentStore.Time.Clock

/-!
# The store

A store is its tables with what surrounds them: the clock, the supply of fresh
ids, and the emitter of events.

A write runs in a transaction (`transact`).  Its body changes the tables of the
session and queues events.  Only when the body succeeds and the call was not
given up in the meantime is the transaction committed, and the events go to the
emitter; otherwise it is rolled back, and they are dropped.  What the clock and
the supply gave out stays given out either way.
-/

namespace ContentStore

open Time (Instant Clock)

/-- Sizes of pages. -/
structure Config where
  defaultPageSize : Nat
  maxPageSize : Nat
  deriving DecidableEq, Repr

namespace Config

/-- Pages of 50 items, and of 100 at most. -/
def standard : Config := ⟨50, 100⟩

end Config

instance : Record Config where
  toJson c := .object [("default_page_size", toJson c.defaultPageSize),
    ("max_page_size", toJson c.maxPageSize)]
  ofJson? j := do
    let ms ← Record.members? ["default_page_size", "max_page_size"] j
    return ⟨← ms.withDefault "default_page_size" Config.standard.defaultPageSize,
      ← ms.withDefault "max_page_size" Config.standard.maxPageSize⟩

/-- Tables with what surrounds them. -/
structure Store where
  tables : Tables
  config : Config
  clock : Clock
  supply : Supply
  progress : Progress
  emitter : Emitter
  deriving DecidableEq, Repr

/-- What the body of a write works on: a session with its transaction, and what
surrounds it. -/
structure Work extends Session where
  clock : Clock
  supply : Supply
  progress : Progress
  /-- Events to be emitted if the write succeeds. -/
  events : List Event
  deriving DecidableEq, Repr

/-- A call on the store.  It may fail; the store it leaves behind counts in
either case. -/
abbrev Operation (α : Type) : Type := ExceptT Error (StateM Store) α

/-- The body of a write. -/
abbrev Write (α : Type) : Type := ExceptT Error (StateM Work) α

namespace Write

/-- Reads the clock. -/
def now : Write Instant :=
  modifyGet fun w =>
    let (t, clock) := w.clock.read
    (t, { w with clock, progress := { w.progress with reads := w.progress.reads + 1 } })

/-- Takes a serial number from the supply. -/
def fresh : Write Nat :=
  modifyGet fun w => (w.supply.next, { w with supply := ⟨w.supply.next + 1⟩ })

/-- Takes a fresh id. -/
def freshId {k : IdKind} : Write (Id k) := return .ofSerial (← fresh)

/-- The tables as they are now. -/
def tables : Write Tables := return (← get).tables

/-- Changes the tables. -/
def change (f : Tables → Tables) : Write Unit :=
  modify fun w => { w with toSession := w.toSession.write f }

/-- Queues an event. -/
def queue (e : Event) : Write Unit := modify fun w => { w with events := w.events ++ [e] }

/-- Appends a snapshot to the history of its item and moves `latest` to it.  An
expected version has to be the latest one. -/
def append (it : Item) (expected : Option VersionId) : Write Version := do
  let h := ((← tables).history? it.id).getD (.empty it.id)
  let timestamp ← now
  let (_, v) ← h.append it timestamp expected ⟨← fresh⟩
  let t ← (← tables).insertVersion v
  change fun _ => t.setRef it.id .latest v.id
  return v

end Write

namespace Store

/-- An empty store. -/
def blank (config : Config) (clock : Clock) (supply : Supply) (emitter : Emitter) : Store :=
  ⟨.empty, config, clock, supply, ⟨0, 0⟩, emitter⟩

/-- The first page, of the default size. -/
def defaultPagination (s : Store) : Query.Pagination := .offset 0 s.config.defaultPageSize

/-- The store after one more look whether a call is given up. -/
def polled (s : Store) : Store :=
  { s with progress := { s.progress with polls := s.progress.polls + 1 } }

/-- What a write begins with, in its transaction. -/
def work (s : Store) (session : Session) : Work :=
  { session with clock := s.clock, supply := s.supply, progress := s.progress, events := [] }

/-- The store with what a write gave out: that stays given out. -/
def spend (s : Store) (w : Work) : Store :=
  { s with clock := w.clock, supply := w.supply, progress := w.progress }

/-- The store after a write that failed, which is rolled back. -/
def abandon (s : Store) (w : Work) : Store := { s.spend w with tables := w.giveUp.tables }

/-- The store after a write that was committed. -/
def keep (s : Store) (kept : Session) (w : Work) : Store :=
  { s.spend w with tables := kept.tables, emitter := Emitter.dispatch w.events s.emitter }

/-- Runs the body of a write: all of its changes are kept, or none. -/
def transact {α : Type} (ctx : Context) (body : Write α) : Operation α := fun s =>
  match ctx.ensureActive s.progress with
  | .error e => (.error e, s.polled)
  | .ok () =>
    match (Session.idle s.tables).begin with
    | .error e => (.error e, s.polled)
    | .ok session =>
      match body (s.polled.work session) with
      | (.error e, w) => (.error e, s.abandon w)
      | (.ok a, w) =>
        match ctx.ensureActive w.progress with
        | .error e => (.error e, (s.abandon w).polled)
        | .ok () =>
          match w.commit with
          | .error e => (.error e, (s.abandon w).polled)
          | .ok kept => (.ok a, (s.keep kept w).polled)

end Store

end ContentStore
