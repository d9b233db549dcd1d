import ContentStore.Error

/-!
# Operators

Every operation is made by an operator: a principal with the workspaces it may
write to and those it maintains.  Who maintains a workspace may also write to
it.  Schemas belong to workspaces, and the rights on a schema are those on its
items.
-/

namespace ContentStore

/-- A principal with its rights. -/
structure Operator where
  principal : Principal
  writable : List WorkspaceId
  maintained : List WorkspaceId
  deriving DecidableEq, Repr

namespace Operator

def canMaintain (o : Operator) (w : WorkspaceId) : Bool := o.maintained.contains w

def canWrite (o : Operator) (w : WorkspaceId) : Bool := o.writable.contains w || o.canMaintain w

/-- Refuses an operator that may not write to the workspace. -/
def checkWrite (o : Operator) (w : WorkspaceId) : Except Error Unit :=
  if o.canWrite w then .ok () else .error (.cannotWrite o.principal w)

/-- Refuses an operator that does not maintain the workspace. -/
def checkMaintain (o : Operator) (w : WorkspaceId) : Except Error Unit :=
  if o.canMaintain w then .ok () else .error (.doesNotMaintain o.principal w)

theorem checkWrite_eq_ok {o : Operator} {w : WorkspaceId} :
    o.checkWrite w = .ok () ↔ o.canWrite w = true := by
  unfold checkWrite
  split <;> simp [*]

theorem checkMaintain_eq_ok {o : Operator} {w : WorkspaceId} :
    o.checkMaintain w = .ok () ↔ o.canMaintain w = true := by
  unfold checkMaintain
  split <;> simp [*]

theorem canWrite_of_canMaintain {o : Operator} {w : WorkspaceId} (h : o.canMaintain w = true) :
    o.canWrite w = true := by
  simp [canWrite, h]

end Operator

instance : Record Operator where
  toJson o := .object [("principal", toJson o.principal),
    ("writable_workspaces", toJson o.writable), ("maintaining_workspaces", toJson o.maintained)]
  ofJson? j := do
    let ms ← Record.members? ["principal", "writable_workspaces", "maintaining_workspaces"] j
    return ⟨← ms.required "principal", ← ms.withDefault "writable_workspaces" [],
      ← ms.withDefault "maintaining_workspaces" []⟩

end ContentStore
