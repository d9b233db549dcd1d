import ContentStore.Time.Instant

/-!
# The clock

Versions and events are stamped, and relative filters are anchored, by a clock
that is part of the store.  Reading it returns the current instant and moves it
on by a fixed step, so that consecutive readings differ.
-/

namespace ContentStore.Time

/-- A clock that moves by `step` milliseconds at every reading. -/
structure Clock where
  current : Instant
  step : Int
  deriving DecidableEq, Repr

namespace Clock

/-- The reading, and the clock after it. -/
def read (c : Clock) : Instant × Clock := (c.current, { c with current := c.current.addMillis c.step })

/-- The clock moved without being read. -/
def advance (c : Clock) (ms : Int) : Clock := { c with current := c.current.addMillis ms }

/-- The clock put to an instant. -/
def set (c : Clock) (t : Instant) : Clock := { c with current := t }

end Clock

end ContentStore.Time
