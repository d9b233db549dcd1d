import ContentStore.Time.Date

/-!
# Instants

A point in time is a count of seconds since the beginning of 1970 and of
nanoseconds after that second.  A leap second is written into the second
before it: its nanoseconds run from one billion up to, but not including, two
billions.  Instants are ordered by seconds and then by nanoseconds, which puts
a leap second between its neighbours.
-/

namespace ContentStore.Time

/-- A point in time. -/
structure Instant where
  seconds : Int
  nanos : Nat
  deriving DecidableEq, Repr, Inhabited

namespace Instant

/-- One second in nanoseconds. -/
def second : Nat := 1000000000

/-- Order in time. -/
def compare (a b : Instant) : Ordering :=
  if a.seconds < b.seconds then .lt
  else if b.seconds < a.seconds then .gt
  else if a.nanos < b.nanos then .lt
  else if b.nanos < a.nanos then .gt
  else .eq

/-- The day of the instant, as a count from 1 January 1970. -/
def day (t : Instant) : Int := t.seconds / 86400

/-- Seconds since midnight. -/
def secondOfDay (t : Instant) : Nat := (t.seconds % 86400).toNat

/-- Years that have instants: 262143 before and 262142 after the year zero. -/
def inRange (t : Instant) : Bool :=
  decide ((Date.mk (-262143) 1 1).toDays ≤ t.day ∧ t.day ≤ (Date.mk 262142 12 31).toDays)

/-- Whole seconds and nanoseconds added, both of one sign.  An instant within
a leap second leaves it when at least a second is added, or enough to reach
its end; taking away a second or more starts from the second after it. -/
def add (t : Instant) (seconds nanos : Int) : Instant :=
  let carry (s n : Int) : Instant :=
    if n < 0 then ⟨s - 1, (n + second).toNat⟩
    else if (second : Int) ≤ n then ⟨s + 1, (n - second).toNat⟩
    else ⟨s, n.toNat⟩
  if t.nanos < second then carry (t.seconds + seconds) (t.nanos + nanos)
  else if 0 < seconds ∨ (0 < nanos ∧ (2 * second : Int) - nanos ≤ t.nanos) then
    carry (t.seconds + seconds) (t.nanos - second + nanos)
  else if seconds < 0 then carry (t.seconds + 1 + seconds) (t.nanos - second + nanos)
  else ⟨t.seconds, (t.nanos + nanos).toNat⟩

/-- Milliseconds added, or taken away when there are less than none. -/
def addMillis (t : Instant) (ms : Int) : Instant :=
  t.add (Int.tdiv ms 1000) (Int.tmod ms 1000 * 1000000)

end Instant

end ContentStore.Time
