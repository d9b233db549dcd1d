import ContentStore.Access.Operator

/-!
# Contexts

A call is made by an operator, who may give up on it while it runs.  Giving up
is noticed only where the call looks for it: once before it begins and, for a
write, once more before its changes are kept.
-/

namespace ContentStore

/-- How far a store has come: how often calls looked whether they are given
up, and how often the clock was read. -/
structure Progress where
  polls : Nat
  reads : Nat
  deriving DecidableEq, Repr

/-- Who makes a call, and when it is given up. -/
structure Context where
  operator : Operator
  cancelled : Progress → Bool

namespace Context

/-- The call of an operator who never gives up. -/
def steady (operator : Operator) : Context := ⟨operator, fun _ => false⟩

/-- Fails once the call is given up. -/
def ensureActive (ctx : Context) (p : Progress) : Except Error Unit :=
  if ctx.cancelled p then .error .cancelled else .ok ()

end Context

end ContentStore
