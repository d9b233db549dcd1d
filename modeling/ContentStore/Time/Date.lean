/-!
# The calendar

Days are counted from 1 January 1970, in both directions, by the Gregorian
calendar without a beginning.  `toDays` and `ofDays` convert between the count
and year, month and day; weeks begin on Monday.
-/

namespace ContentStore.Time

/-- A day by year, month (1 to 12) and day of the month. -/
structure Date where
  year : Int
  month : Nat
  day : Nat
  deriving DecidableEq, Repr

namespace Date

/-- Leap years are the multiples of four but not of a hundred, and the
multiples of four hundred. -/
def isLeap (year : Int) : Bool := (year % 4 == 0 && year % 100 != 0) || year % 400 == 0

/-- Number of days of a month. -/
def daysIn (year : Int) (month : Nat) : Nat :=
  if month = 2 then (if isLeap year then 29 else 28)
  else if month = 4 ∨ month = 6 ∨ month = 9 ∨ month = 11 then 30
  else 31

/-- The day exists in the calendar. -/
def isValid (d : Date) : Bool :=
  decide (1 ≤ d.month ∧ d.month ≤ 12 ∧ 1 ≤ d.day ∧ d.day ≤ daysIn d.year d.month)

/-- Days before the year that begins in March of `year`, counted from March of
the year zero. -/
def daysBefore (year : Int) : Int := 365 * year + year / 4 - year / 100 + year / 400

/-- Days of a year that begins in March, before its month number `m` (March
is 0). -/
def daysBeforeMonth (m : Nat) : Nat := (153 * m + 2) / 5

/-- The count of the day from 1 January 1970. -/
def toDays (d : Date) : Int :=
  let year := if d.month ≤ 2 then d.year - 1 else d.year
  let month := if d.month ≤ 2 then d.month + 9 else d.month - 3
  daysBefore year + daysBeforeMonth month + (d.day - 1 : Int) - 719468

/-- The day of a count. -/
def ofDays (days : Int) : Date :=
  let z := days + 719468
  let era := z / 146097
  let inEra := (z % 146097).toNat
  let yearOfEra := (inEra - inEra / 1460 + inEra / 36524 - inEra / 146096) / 365
  let dayOfYear := inEra - (365 * yearOfEra + yearOfEra / 4 - yearOfEra / 100)
  let month := (5 * dayOfYear + 2) / 153
  let day := dayOfYear - daysBeforeMonth month + 1
  let year : Int := era * 400 + yearOfEra
  if month < 10 then ⟨year, month + 3, day⟩ else ⟨year + 1, month - 9, day⟩

/-- Days since Monday: 0 on Monday, 6 on Sunday. -/
def sinceMonday (days : Int) : Int := (days + 3) % 7

/-- The Monday on or before a day. -/
def startOfWeek (days : Int) : Int := days - sinceMonday days

/-- The first day of the month of a day. -/
def startOfMonth (days : Int) : Int := toDays { ofDays days with day := 1 }

/-- The first day of the year of a day. -/
def startOfYear (days : Int) : Int := toDays ⟨(ofDays days).year, 1, 1⟩

end Date

end ContentStore.Time
