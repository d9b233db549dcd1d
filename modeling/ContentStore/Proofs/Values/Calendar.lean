import ContentStore.Time.Date
import Mathlib.Tactic.IntervalCases

/-!
# Dates of days

Every count of days has a date in the calendar, and the date says the count
(`Date.isValid_ofDays`, `Date.toDays_ofDays`).  The formula of `ofDays` is read off
four hundred years, after which the calendar begins anew: a day of them is taken
apart into its century, the four years in it, the year in these and the day in the
year (`Date.Parts`), and each division of the formula is one of these parts.
-/

namespace ContentStore.Time.Date

variable {z c b r d : Nat}

/-- A day of four hundred years by its century, its four years in the century, its
year in the four and its day in the year.  Years begin in March, so that a leap day
is the last day of a year. -/
structure Parts (z c b r d : Nat) : Prop where
  sum : z = 36524 * c + 1461 * b + 365 * r + d
  century : c ≤ 3
  four : b ≤ 24
  year : r ≤ 3
  day : d ≤ 364 ∨ d = 365 ∧ r = 3 ∧ (b ≤ 23 ∨ c = 3)

theorem exists_parts (hz : z < 146097) : ∃ c b r d, Parts z c b r d := by
  obtain ⟨c, w, hc, hsum, hw⟩ :
      ∃ c w, c ≤ 3 ∧ z = 36524 * c + w ∧ (w < 36524 ∨ w = 36524 ∧ c = 3) :=
    ⟨min (z / 36524) 3, z - 36524 * min (z / 36524) 3, by omega, by omega, by omega⟩
  obtain ⟨b, v, hb, hsum', hv⟩ : ∃ b v, b ≤ 24 ∧ w = 1461 * b + v ∧ v < 1461 :=
    ⟨w / 1461, w % 1461, by omega, by omega, by omega⟩
  obtain ⟨r, d, hr, hsum'', hd⟩ :
      ∃ r d, r ≤ 3 ∧ v = 365 * r + d ∧ (d < 365 ∨ d = 365 ∧ r = 3) :=
    ⟨min (v / 365) 3, v - 365 * min (v / 365) 3, by omega, by omega, by omega⟩
  exact ⟨c, b, r, d, by omega, hc, hb, hr, by omega⟩

namespace Parts

variable (h : Parts z c b r d)

include h

theorem day_le : d ≤ 365 := by
  rcases h.day with hd | ⟨rfl, -⟩
  · omega
  · exact Nat.le_refl 365

theorem yearOfEra :
    (z - z / 1460 + z / 36524 - z / 146096) / 365 = 100 * c + 4 * b + r := by
  obtain ⟨hsum, hc, hb, hr, hd⟩ := h
  have hlast : z / 36524 = c + z / 146096 := by
    rcases Nat.lt_or_ge (1461 * b + 365 * r + d) 36524 with hin | hend
    · have hcentury : z / 36524 = c := Nat.div_eq_of_lt_le (by omega) (by omega)
      have hnone : z / 146096 = 0 := Nat.div_eq_of_lt (by omega)
      rw [hcentury, hnone, Nat.add_zero]
    · have hz : z = 146096 := by omega
      have hthree : c = 3 := by omega
      rw [hz, hthree]
  have hfour : z / 1460 = 25 * c + b + (24 * c + b + 365 * r + d) / 1460 := by
    rw [← Nat.mul_add_div (by decide)]
    congr 1
    omega
  have hleap : (24 * c + b + 365 * r + d) / 1460 ≤ 1 := by omega
  omega

theorem dayOfYear :
    z - (365 * (100 * c + 4 * b + r) + (100 * c + 4 * b + r) / 4 - (100 * c + 4 * b + r) / 100) =
      d := by
  obtain ⟨hsum, hc, hb, hr, hd⟩ := h
  have hfour : (100 * c + 4 * b + r) / 4 = 25 * c + b := by omega
  have hcentury : (100 * c + 4 * b + r) / 100 = c := by omega
  omega

/-- The last day of a long year is the leap day. -/
theorem isLeap (hd : d = 365) (era : Int) :
    Date.isLeap (era * 400 + (100 * c + 4 * b + r : Nat) + 1) = true := by
  obtain ⟨-, hc, hb, -, hday⟩ := h
  obtain ⟨-, hr, hlast⟩ := hday.resolve_left (by omega)
  simp only [Date.isLeap, Bool.or_eq_true, Bool.and_eq_true, beq_iff_eq, bne_iff_ne]
  omega

theorem daysBefore (era : Int) :
    Date.daysBefore (era * 400 + (100 * c + 4 * b + r : Nat)) =
      146097 * era + (36524 * c + 1461 * b + 365 * r : Nat) := by
  obtain ⟨-, hc, hb, hr, -⟩ := h
  have hfour : (era * 400 + (100 * c + 4 * b + r : Nat)) / 4 = 100 * era + 25 * c + b := by omega
  have hcentury : (era * 400 + (100 * c + 4 * b + r : Nat)) / 100 = 4 * era + c := by omega
  have hera : (era * 400 + (100 * c + 4 * b + r : Nat)) / 400 = era := by omega
  rw [Date.daysBefore, hfour, hcentury, hera]
  omega

end Parts

/-- The month of a day, counted from March, and the day in it. -/
theorem month_bounds {d : Nat} (hd : d ≤ 365) :
    (5 * d + 2) / 153 ≤ 11 ∧ daysBeforeMonth ((5 * d + 2) / 153) ≤ d ∧
      d < daysBeforeMonth ((5 * d + 2) / 153 + 1) := by
  unfold daysBeforeMonth
  omega

/-- From March to January every month has the days up to the next one. -/
theorem daysIn_of_month {m : Nat} (year : Int) (hm : m < 11) :
    daysIn year (if m < 10 then m + 3 else m - 9) =
      daysBeforeMonth (m + 1) - daysBeforeMonth m := by
  interval_cases m <;> rfl

/-- Months and days have two digits. -/
theorem le_of_isValid (date : Date) (h : date.isValid = true) :
    date.month ≤ 12 ∧ date.day ≤ 31 := by
  have hmost : daysIn date.year date.month ≤ 31 := by
    unfold daysIn
    repeat' split
    all_goals decide
  have hparts := of_decide_eq_true h
  exact ⟨hparts.2.1, Nat.le_trans hparts.2.2.2 hmost⟩

/-- A day of the calendar by its year from March and its number in it. -/
theorem ofDays_eq {days : Int} (h : Parts ((days + 719468) % 146097).toNat c b r d) :
    ofDays days =
      let year : Int := (days + 719468) / 146097 * 400 + (100 * c + 4 * b + r : Nat)
      let m := (5 * d + 2) / 153
      if m < 10 then ⟨year, m + 3, d - daysBeforeMonth m + 1⟩
      else ⟨year + 1, m - 9, d - daysBeforeMonth m + 1⟩ := by
  unfold ofDays
  dsimp only
  rw [h.yearOfEra, h.dayOfYear]

/-- **The date of a day is the date of no other day.** -/
theorem toDays_ofDays (days : Int) : (ofDays days).toDays = days := by
  have hera : ((days + 719468) % 146097).toNat < 146097 := by omega
  obtain ⟨c, b, r, d, h⟩ := exists_parts hera
  obtain ⟨hm, hfirst, -⟩ := month_bounds h.day_le
  rw [ofDays_eq h]
  have hsum := h.sum
  have hbefore := h.daysBefore ((days + 719468) / 146097)
  generalize (5 * d + 2) / 153 = m at hm hfirst ⊢
  generalize (100 * c + 4 * b + r) = y at hbefore ⊢
  dsimp only
  split
  · rename_i hlt
    unfold toDays
    dsimp only
    rw [if_neg (by omega), if_neg (by omega), hbefore, Nat.add_sub_cancel]
    omega
  · rename_i hge
    have hback : m - 9 + 9 = m := by omega
    unfold toDays
    dsimp only
    rw [if_pos (by omega), if_pos (by omega), Int.add_sub_cancel, hbefore, hback]
    omega

/-- **The date of a day is in the calendar.** -/
theorem isValid_ofDays (days : Int) : (ofDays days).isValid = true := by
  have hera : ((days + 719468) % 146097).toNat < 146097 := by omega
  obtain ⟨c, b, r, d, h⟩ := exists_parts hera
  obtain ⟨hm, hfirst, hlast⟩ := month_bounds h.day_le
  rw [ofDays_eq h, isValid, decide_eq_true_iff]
  have hlong : d = 365 →
      isLeap ((days + 719468) / 146097 * 400 + (100 * c + 4 * b + r : Nat) + 1) :=
    fun hday => h.isLeap hday _
  have hd := h.day_le
  generalize (5 * d + 2) / 153 = m at hm hfirst hlast ⊢
  generalize (days + 719468) / 146097 * 400 + ((100 * c + 4 * b + r : Nat) : Int) = year at hlong ⊢
  dsimp only
  rcases Nat.lt_or_ge m 10 with hlt | hge
  · rw [if_pos hlt]
    have hin : daysIn year _ = _ := daysIn_of_month year (show m < 11 by omega)
    rw [if_pos hlt] at hin
    dsimp only
    omega
  · rw [if_neg (by omega)]
    dsimp only
    rcases Nat.lt_or_ge m 11 with hjanuary | hfebruary
    · have hin := daysIn_of_month (year + 1) hjanuary
      rw [if_neg (by omega)] at hin
      omega
    · -- the last month of a year from March
      obtain rfl : m = 11 := by omega
      have hfirst' : daysBeforeMonth 11 = 337 := rfl
      have hin : daysIn (year + 1) 2 = if isLeap (year + 1) then 29 else 28 := rfl
      rw [hfirst'] at hfirst ⊢
      rw [hin]
      refine ⟨by omega, by omega, by omega, ?_⟩
      split
      · omega
      · rename_i hcommon
        have hne : d ≠ 365 := fun hday => hcommon (hlong hday)
        omega

end ContentStore.Time.Date
