import ContentStore.Error
import ContentStore.Schema.Basic

/-!
# Groups that would contain themselves

Embedding a group into a schema is refused when the group's schema is that
schema, or embeds it at any depth.  The check follows the group fields of the
schemas it loads and loads each group once.
-/

namespace ContentStore.Embedding

/-- What is known about groups: the schema of each, or why it cannot be
loaded.  Other groups fail in a way of their own. -/
structure Groups where
  known : List (GroupId × Except Error Schema)
  missing : GroupId → Error

/-- Loads the schema of a group. -/
def Groups.load (g : Groups) (id : GroupId) : Except Error Schema :=
  (g.known.lookup id).getD (.error (g.missing id))

/-- Follows embedded groups from the top of the stack, loading those not yet
loaded.  The result lists the groups loaded, last one first. -/
def follow (g : Groups) (host : SchemaId) (start : GroupId) :
    Nat → List GroupId → List GroupId → Except Error (List GroupId)
  | 0, _, loaded => .ok loaded
  | _, [], loaded => .ok loaded
  | fuel + 1, id :: stack, loaded =>
    if loaded.contains id then follow g host start fuel stack loaded
    else match g.load id with
      | .error e => .error e
      | .ok s =>
        if s.id = host then .error (.schema (.groupCycle start))
        else follow g host start fuel (s.embedded.reverse ++ stack) (id :: loaded)

/-- Number of steps that `follow` can take: one for the start and one for each
embedding in a known schema. -/
def Groups.steps (g : Groups) : Nat :=
  (g.known.map fun e => match e.2 with
    | .ok s => s.embedded.length
    | .error _ => 0).foldr (· + ·) 0 + 1

/-- The groups embedded by `start`, at any depth, if none of their schemas is
`host`. -/
def ensureAcyclic (g : Groups) (host : SchemaId) (start : GroupId) :
    Except Error (List GroupId) :=
  follow g host start g.steps [start] []

end ContentStore.Embedding
