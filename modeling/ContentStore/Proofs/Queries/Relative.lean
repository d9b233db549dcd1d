import ContentStore.Proofs.Values.Periods
import ContentStore.Query.Condition

/-!
# Filters relative to now

A filter may ask for the week, the month or the year of now.  Two days share a week if
both lie in the seven days from some Monday on, and they share a month or a year if
their dates have the same (`Period.Shares`).

What such a filter compares with is the first day of the period alone
(`Period.bound?_op`).  So it passes what lies in the period, and also whatever lies after
it (`Condition.holds_period`): a date in a year from now is taken for one of this week
(`Condition.next_year_this_week`).
-/

namespace ContentStore.Query

open Time (Instant Date)

/-- The dates among the values that a selector reads. -/
def Selector.instants (s : Selector) (c : Candidate) : List Instant :=
  ((s.read? c).getD []).filterMap Value.dateTime?

/-- Periods of days that a filter can ask for. -/
inductive Period where
  | week | month | year
  deriving DecidableEq, Repr

namespace Period

variable {p : Period} {a b : Int}

/-- The test for the period of now. -/
def op : Period → TimeOp
  | week => .ofThisWeek
  | month => .ofThisMonth
  | year => .ofThisYear

/-- Two days lie in the same period.  Weeks go from Monday to Sunday. -/
def Shares : Period → Int → Int → Prop
  | week, a, b => ∃ monday, Date.sinceMonday monday = 0 ∧
      (monday ≤ a ∧ a < monday + 7) ∧ (monday ≤ b ∧ b < monday + 7)
  | month, a, b => (Date.ofDays a).year = (Date.ofDays b).year ∧
      (Date.ofDays a).month = (Date.ofDays b).month
  | year, a, b => (Date.ofDays a).year = (Date.ofDays b).year

/-- At the second day the period of the first one is over. -/
def OverAt (p : Period) (now day : Int) : Prop := ∀ d, p.Shares now d → d < day

/-- The number of the period a day lies in. -/
def number : Period → Int → Int
  | week, d => (d + 3) / 7
  | month, d => (Date.ofDays d).monthNumber
  | year, d => (Date.ofDays d).year

/-- The first day of a period by its number. -/
def first : Period → Int → Int
  | week, n => 7 * n - 3
  | month, n => Date.firstOfMonth n
  | year, n => Date.firstOfMonth (12 * n)

theorem tiles (p : Period) : Date.Tiles p.first p.number := by
  cases p with
  | week => exact Date.tiles_weeks
  | month => exact Date.tiles_months
  | year => exact Date.tiles_years

/-- **Days share a period** just if its number is the same. -/
theorem shares_iff : p.Shares a b ↔ p.number b = p.number a := by
  cases p with
  | week =>
    simp only [Shares, number, Date.sinceMonday]
    constructor
    · rintro ⟨monday, hmonday, ha, hb⟩
      omega
    · intro hsame
      exact ⟨7 * ((a + 3) / 7) - 3, by omega, by omega, by omega⟩
  | month =>
    have ha := of_decide_eq_true (Date.isValid_ofDays a)
    have hb := of_decide_eq_true (Date.isValid_ofDays b)
    simp only [Shares, number, Date.monthNumber]
    omega
  | year => exact eq_comm

instance (p : Period) (a b : Int) : Decidable (p.Shares a b) := decidable_of_iff _ shares_iff.symm

/-- What is compared with is the first day of the period, whatever instant is given. -/
theorem bound?_op (p : Period) (now : Instant) (value : Option Instant) :
    p.op.bound? now value = some (p.first (p.number now.day)) := by
  cases p with
  | week =>
    unfold op TimeOp.bound? first number Date.startOfWeek Date.sinceMonday
    dsimp only
    congr 1
    omega
  | month =>
    obtain ⟨hfirst, hlast, -⟩ := of_decide_eq_true (Date.isValid_ofDays now.day)
    obtain ⟨m, hm⟩ : ∃ m, (Date.ofDays now.day).month = m + 1 :=
      ⟨(Date.ofDays now.day).month - 1, by omega⟩
    have hnumber : (Date.ofDays now.day).monthNumber = 12 * (Date.ofDays now.day).year + m := by
      unfold Date.monthNumber
      omega
    unfold op TimeOp.bound? first number Date.startOfMonth
    dsimp only
    rw [hnumber, Date.firstOfMonth_eq _ (by omega), hm]
  | year =>
    have hyear := Date.firstOfMonth_eq (Date.ofDays now.day).year (m := 0) (by decide)
    rw [Int.natCast_zero, Int.add_zero] at hyear
    exact congrArg some hyear.symm

/-- From the first day on, days lie in the period or after it. -/
theorem first_le_iff (p : Period) (now day : Int) :
    p.first (p.number now) ≤ day ↔ p.Shares now day ∨ p.OverAt now day := by
  unfold OverAt
  simp only [shares_iff]
  exact p.tiles.first_le_iff now day

end Period

namespace Condition

variable {field : Selector} {c : Candidate}

theorem someValue_instant {test : Instant → Bool} :
    someValue field c (fun v => v.dateTime?.any test) = true ↔
      ∃ t ∈ field.instants c, test t = true := by
  unfold someValue Selector.instants
  cases field.read? c with
  | none => simp
  | some vs =>
    simp only [Option.any_some, Option.getD_some, List.any_eq_true, List.mem_filterMap,
      Option.any_eq_true]
    constructor
    · rintro ⟨v, hv, t, ht, hpasses⟩
      exact ⟨t, ⟨v, hv, ht⟩, hpasses⟩
    · rintro ⟨t, ⟨v, hv, ht⟩, hpasses⟩
      exact ⟨v, hv, t, ht, hpasses⟩

/-- **A filter for the period of now** passes the dates in the period and those after it.
So it tells which lie in the period, but for candidates that have later dates alone. -/
theorem holds_period (p : Period) (now : Instant) (c : Candidate) (field : Selector)
    (value : Option Instant) :
    ((time field p.op value).holds now c = true ↔
      ∃ t ∈ field.instants c, p.Shares now.day t.day ∨ p.OverAt now.day t.day) ∧
    (((time field p.op value).holds now c = true ↔
        ∃ t ∈ field.instants c, p.Shares now.day t.day) ↔
      ((∃ t ∈ field.instants c, p.OverAt now.day t.day) →
        ∃ t ∈ field.instants c, p.Shares now.day t.day)) := by
  have htest : ∀ day bound, p.op.test day bound = decide (bound ≤ day) := by
    intro day bound
    cases p <;> rfl
  have hholds : (time field p.op value).holds now c = true ↔
      ∃ t ∈ field.instants c, p.Shares now.day t.day ∨ p.OverAt now.day t.day := by
    rw [holds, p.bound?_op now value]
    dsimp only
    rw [someValue_instant]
    simp only [htest, decide_eq_true_iff, p.first_le_iff]
  refine ⟨hholds, ?_⟩
  rw [hholds]
  constructor
  · rintro hsays ⟨t, ht, hover⟩
    exact hsays.mp ⟨t, ht, .inr hover⟩
  · intro hlater
    constructor
    · rintro ⟨t, ht, hshares | hover⟩
      · exact ⟨t, ht, hshares⟩
      · exact hlater ⟨t, ht, hover⟩
    · rintro ⟨t, ht, hshares⟩
      exact ⟨t, ht, .inl hshares⟩

/-- A conference on 15 May 2025. -/
def conference : Candidate where
  version := {
    id := ⟨1⟩
    parents := []
    refs := [.latest]
    timestamp := ⟨0, 0⟩
    item := {
      id := ⟨"conference"⟩
      project := ⟨"project"⟩
      model := ⟨"model"⟩
      schema := ⟨"schema"⟩
      thread := ⟨"thread"⟩
      fields := [⟨⟨"opens"⟩, "opens", ⟨.dateTime, [.dateTime ⟨1747267200, 0⟩]⟩, none⟩]
      metadataItem := none
      metadataOf := none
      createdBy := .user ⟨"someone"⟩
      updatedBy := none
      createdAt := ⟨0, 0⟩ } }
  status := .draft
  metadata := none

/-- Noon of 15 May 2024. -/
def yearBefore : Instant := ⟨1715774400, 0⟩

/-- **Next year is taken for this week**, and for this month and this year.  On 15 May 2024
the conference of 2025 passes all three filters. -/
theorem next_year_this_week :
    Date.ofDays yearBefore.day = ⟨2024, 5, 15⟩ ∧
    (Selector.instants (.ofField ⟨"opens"⟩) conference).map (fun t => Date.ofDays t.day) =
      [⟨2025, 5, 15⟩] ∧
    ∀ p : Period,
      (time (.ofField ⟨"opens"⟩) p.op none).holds yearBefore conference = true ∧
      ¬ ∃ t ∈ Selector.instants (.ofField ⟨"opens"⟩) conference,
        p.Shares yearBefore.day t.day := by
  refine ⟨by decide +kernel, by decide +kernel, fun p => ?_⟩
  cases p <;> decide +kernel

end Condition

end ContentStore.Query
