import ContentStore.Proofs.Values.Calendar
import Mathlib.Order.Monotone.Basic

/-!
# Weeks, months and years

Weeks, months and years are numbered in order, and so divide all days: a number has a
first day, a day has a number, and the day lies from the first day of its number on, up
to that of the next (`Tiles`).  Of months this is said by the calendar
(`tiles_months`), and years are twelve months each.

Whether a day is no earlier than the beginning of a period is then a question of the
period it lies in (`Tiles.first_le_iff`): it lies in that one or after all of its days.
-/

namespace ContentStore.Time.Date

/-! ## Numbered periods -/

/-- Periods that follow one another: the first day of each, and the number of the one
that a day lies in. -/
structure Tiles (first index : Int → Int) : Prop where
  mono : ∀ ⦃a b⦄, a < b → first a < first b
  le : ∀ d, first (index d) ≤ d
  lt : ∀ d, d < first (index d + 1)

namespace Tiles

variable {first index : Int → Int}

theorem first_le (h : Tiles first index) {a b : Int} (hab : a ≤ b) : first a ≤ first b := by
  rcases Int.lt_or_eq_of_le hab with hlt | rfl
  · exact Int.le_of_lt (h.mono hlt)
  · exact Int.le_refl _

/-- A period has begun for the days in it, and for those after all days in it. -/
theorem first_le_iff (h : Tiles first index) (now day : Int) :
    first (index now) ≤ day ↔
      index day = index now ∨ ∀ d, index d = index now → d < day := by
  constructor
  · intro hle
    have hbegun : index now ≤ index day := by
      by_contra hafter
      have hnext : first (index day + 1) ≤ first (index now) := h.first_le (by omega)
      have hlt := h.lt day
      omega
    rcases Int.lt_or_eq_of_le hbegun with hlater | hsame
    · refine .inr fun d hd => ?_
      calc d < first (index d + 1) := h.lt d
        _ ≤ first (index day) := h.first_le (by omega)
        _ ≤ day := h.le day
    · exact .inl hsame.symm
  · rintro (hsame | hlater)
    · exact hsame ▸ h.le day
    · exact Int.le_of_lt (Int.lt_of_le_of_lt (h.le now) (hlater now rfl))

end Tiles

/-- Weeks begin on Monday. -/
theorem tiles_weeks : Tiles (fun week => 7 * week - 3) (fun d => (d + 3) / 7) where
  mono := fun a b h => by omega
  le := fun d => by omega
  lt := fun d => by omega

/-! ## Months -/

/-- Months counted without a break over the years. -/
def monthNumber (date : Date) : Int := 12 * date.year + date.month - 1

/-- The first day of a month by its number. -/
def firstOfMonth (n : Int) : Int := toDays ⟨n / 12, (n % 12).toNat + 1, 1⟩

theorem firstOfMonth_eq (year : Int) {m : Nat} (hm : m < 12) :
    firstOfMonth (12 * year + m) = toDays ⟨year, m + 1, 1⟩ := by
  have hyear : (12 * year + m) / 12 = year := by omega
  have hmonth : ((12 * year + m) % 12).toNat = m := by omega
  rw [firstOfMonth, hyear, hmonth]

/-- Before the next month begins, all days of a month have passed. -/
theorem firstOfMonth_succ (year : Int) {m : Nat} (hm : m < 12) :
    firstOfMonth (12 * year + m + 1) = toDays ⟨year, m + 1, 1⟩ + daysIn year (m + 1) := by
  rcases Nat.lt_or_ge m 11 with hlt | hge
  · have hnext : 12 * year + m + 1 = 12 * year + (m + 1 : Nat) := by omega
    rw [hnext, firstOfMonth_eq year (by omega)]
    by_cases hfebruary : m = 1
    · -- the leap day ends a year that is counted from March
      subst hfebruary
      have hfirst : toDays ⟨year, 2, 1⟩ = daysBefore (year - 1) + 337 - 719468 := by
        simp [toDays, daysBeforeMonth]
      have hmarch : toDays ⟨year, 3, 1⟩ = daysBefore year - 719468 := by
        simp [toDays, daysBeforeMonth]
      have hdays : daysIn year 2 = if isLeap year then 29 else 28 := rfl
      have hleap : isLeap year = true ↔ year % 4 = 0 ∧ year % 100 ≠ 0 ∨ year % 400 = 0 := by
        simp [isLeap]
      rw [hfirst, hmarch, hdays]
      simp only [daysBefore, hleap]
      split <;> omega
    · interval_cases m <;> simp [toDays, daysBeforeMonth, daysIn] at hfebruary ⊢ <;> omega
  · obtain rfl : m = 11 := by omega
    have hnext : 12 * year + (11 : Nat) + 1 = 12 * (year + 1) + (0 : Nat) := by omega
    rw [hnext, firstOfMonth_eq (year + 1) (by omega)]
    simp [toDays, daysBeforeMonth, daysIn]
    omega

theorem firstOfMonth_lt {a b : Int} (h : a < b) : firstOfMonth a < firstOfMonth b := by
  refine strictMono_int_of_lt_succ (fun n => ?_) h
  obtain ⟨year, m, hm, rfl⟩ : ∃ (year : Int) (m : Nat), m < 12 ∧ n = 12 * year + m :=
    ⟨n / 12, (n % 12).toNat, by omega, by omega⟩
  have hdays : 28 ≤ daysIn year (m + 1) := by
    unfold daysIn
    repeat' split
    all_goals decide
  rw [firstOfMonth_succ year hm, firstOfMonth_eq year hm]
  omega

/-- A date of the calendar is so many days after the first of its month. -/
theorem toDays_eq (date : Date) : date.toDays = toDays { date with day := 1 } + (date.day - 1) := by
  unfold toDays
  dsimp only
  omega

/-- **A date lies in its month.** -/
theorem tiles_months : Tiles firstOfMonth fun d => (ofDays d).monthNumber := by
  have hbetween : ∀ d, firstOfMonth (ofDays d).monthNumber ≤ d ∧
      d < firstOfMonth ((ofDays d).monthNumber + 1) := by
    intro d
    have hvalid := of_decide_eq_true (isValid_ofDays d)
    have hdays := toDays_ofDays d
    generalize ofDays d = date at hvalid hdays
    obtain ⟨year, month, day⟩ := date
    obtain ⟨hfirst, hlast, hone, hmost⟩ := hvalid
    dsimp only at hfirst hlast hone hmost
    obtain ⟨m, rfl⟩ : ∃ m, month = m + 1 := ⟨month - 1, by omega⟩
    have hnumber : monthNumber ⟨year, m + 1, day⟩ = 12 * year + m := by
      unfold monthNumber
      dsimp only
      omega
    rw [hnumber, firstOfMonth_succ year (by omega), firstOfMonth_eq year (by omega)]
    rw [toDays_eq] at hdays
    dsimp only at hdays
    omega
  exact ⟨fun a b => firstOfMonth_lt, fun d => (hbetween d).1, fun d => (hbetween d).2⟩

/-- **Years are twelve months each**, and so divide the days as months do. -/
theorem tiles_years : Tiles (fun year => firstOfMonth (12 * year)) fun d => (ofDays d).year where
  mono := fun a b h => tiles_months.mono (by omega)
  le := by
    intro d
    have hmonth := (of_decide_eq_true (isValid_ofDays d)).1
    exact Int.le_trans (tiles_months.first_le (by unfold monthNumber; omega)) (tiles_months.le d)
  lt := by
    intro d
    have hmonth := (of_decide_eq_true (isValid_ofDays d)).2.1
    have hlt := tiles_months.lt d
    exact Int.lt_of_lt_of_le hlt (tiles_months.first_le (by unfold monthNumber; omega))

end ContentStore.Time.Date
