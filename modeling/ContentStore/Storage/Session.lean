import ContentStore.Storage.Tables

/-!
# Transactions

A session changes tables one statement after the other.  Between `begin` and
`commit` it keeps a copy of the tables as they were, to which `rollback`
returns.  Transactions do not nest.
-/

namespace ContentStore

/-- Tables with at most one open transaction.  `saved` are the tables as they
were when it was begun. -/
structure Session where
  tables : Tables
  saved : Option Tables
  deriving DecidableEq, Repr

namespace Session

/-- Tables without an open transaction. -/
def idle (tables : Tables) : Session := ⟨tables, none⟩

def inTransaction (s : Session) : Bool := s.saved.isSome

/-- Opens a transaction. -/
def begin (s : Session) : Except Error Session :=
  match s.saved with
  | some _ => .error .storage
  | none => .ok { s with saved := some s.tables }

/-- Keeps the changes since `begin`. -/
def commit (s : Session) : Except Error Session :=
  match s.saved with
  | some _ => .ok { s with saved := none }
  | none => .error .storage

/-- Drops the changes since `begin`. -/
def rollback (s : Session) : Except Error Session :=
  match s.saved with
  | some tables => .ok (idle tables)
  | none => .error .storage

/-- Changes the tables, in the open transaction if there is one. -/
def write (s : Session) (f : Tables → Tables) : Session := { s with tables := f s.tables }

/-- Rolls back if a transaction is open.  Nothing more is done if that fails. -/
def giveUp (s : Session) : Session :=
  if s.inTransaction then
    match s.rollback with
    | .ok restored => restored
    | .error _ => s
  else s

/-- A transaction keeps the tables that it was begun on. -/
@[simp] theorem begin_idle (tables : Tables) :
    (idle tables).begin = .ok ⟨tables, some tables⟩ := rfl

/-- Committing keeps what stands in the tables, and ends the transaction. -/
theorem commit_of_open {s : Session} {tables : Tables} (h : s.saved = some tables) :
    s.commit = .ok (idle s.tables) := by
  rw [commit, h]
  rfl

/-- Giving up returns to where the transaction began, whatever was written since. -/
theorem giveUp_of_open {s : Session} {tables : Tables} (h : s.saved = some tables) :
    s.giveUp = idle tables := by
  have hopen : s.inTransaction = true := by rw [inTransaction, h, Option.isSome_some]
  rw [giveUp, if_pos hopen, rollback, h]

end Session

end ContentStore
