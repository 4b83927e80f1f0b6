import Mathlib

/-!
# The Gregorian calendar

The dates of the proleptic Gregorian calendar from the year 0 on, their order, and the days of the
week.
-/

namespace Calendar

/-- The year has a 29th of February. -/
def IsLeap (year : Nat) : Prop := year % 4 = 0 ∧ year % 100 ≠ 0 ∨ year % 400 = 0

instance (year : Nat) : Decidable (IsLeap year) := by
  unfold IsLeap
  infer_instance

/-- The number of days of a month. -/
def daysOfMonth (year month : Nat) : Nat :=
  if month = 2 then if IsLeap year then 29 else 28
  else if month = 4 ∨ month = 6 ∨ month = 9 ∨ month = 11 then 30
  else 31

/-- A date. -/
@[ext]
structure Date where
  year : Nat
  month : Nat
  day : Nat
  month_pos : 1 ≤ month
  month_le : month ≤ 12
  day_pos : 1 ≤ day
  day_le : day ≤ daysOfMonth year month
  deriving DecidableEq, Repr

/-- Years, months and days that name a date. -/
def IsDate (year month day : Nat) : Prop :=
  1 ≤ month ∧ month ≤ 12 ∧ 1 ≤ day ∧ day ≤ daysOfMonth year month

instance (year month day : Nat) : Decidable (IsDate year month day) := by
  unfold IsDate
  infer_instance

/-- The date that years, months and days name. -/
def IsDate.toDate {year month day : Nat} (h : IsDate year month day) : Date :=
  ⟨year, month, day, h.1, h.2.1, h.2.2.1, h.2.2.2⟩

theorem Date.isDate (date : Date) :
  IsDate date.year date.month date.day
  := ⟨date.month_pos, date.month_le, date.day_pos, date.day_le⟩

/-- The first date is earlier. -/
def Date.Before (a b : Date) : Prop :=
  a.year < b.year
    ∨ a.year = b.year ∧ (a.month < b.month ∨ a.month = b.month ∧ a.day < b.day)

theorem daysOfMonth_le (year month : Nat) :
  daysOfMonth year month ≤ 31
  := by
  unfold daysOfMonth
  split_ifs <;> omega

theorem Date.day_le_max (date : Date) :
  date.day ≤ 31
  := date.day_le.trans (daysOfMonth_le date.year date.month)

theorem daysOfMonth_pos (year month : Nat) :
  1 ≤ daysOfMonth year month
  := by
  unfold daysOfMonth
  split_ifs <;> omega

/-! ### Counting days -/

/-- The number of days of a year. -/
def daysOfYear (year : Nat) : Nat := if IsLeap year then 366 else 365

/-- The number of the day in its year. -/
def Date.dayOfYear (date : Date) : Nat :=
  ∑ month ∈ Finset.Ico 1 date.month, daysOfMonth date.year month + date.day

/-- The number of the day, where 1 is the first day of the year 0. -/
def Date.dayNumber (date : Date) : Nat :=
  ∑ year ∈ Finset.range date.year, daysOfYear year + date.dayOfYear

/-- The day of the week, where 0 is a Monday. The first day of the year 0 was a Saturday. -/
def Date.weekday (date : Date) : Nat := (date.dayNumber + 4) % 7

theorem sum_daysOfMonth (year : Nat) :
  ∑ month ∈ Finset.Ico 1 13, daysOfMonth year month = daysOfYear year
  := by
  rw [Finset.sum_Ico_eq_sum_range, daysOfYear]
  by_cases h : IsLeap year <;> simp [Finset.sum_range_succ, daysOfMonth, h]

theorem Date.dayOfYear_pos (date : Date) :
  1 ≤ date.dayOfYear
  := by
  have := date.day_pos
  rw [dayOfYear]
  omega

theorem Date.dayOfYear_le (date : Date) :
  date.dayOfYear ≤ daysOfYear date.year
  := by
  have hday := date.day_le
  have hsub : Finset.Ico 1 (date.month + 1) ⊆ Finset.Ico 1 13 :=
    Finset.Ico_subset_Ico_right (by have := date.month_le; omega)
  have hle := Finset.sum_le_sum_of_subset hsub (f := daysOfMonth date.year)
  rw [Finset.sum_Ico_succ_top date.month_pos, sum_daysOfMonth] at hle
  rw [dayOfYear]
  omega

/-- The first day of a year. -/
def newYear (year : Nat) : Date where
  year := year
  month := 1
  day := 1
  month_pos := le_rfl
  month_le := by decide
  day_pos := le_rfl
  day_le := daysOfMonth_pos year 1

theorem weekday_newYear (year : Nat) :
  (newYear year).weekday = (∑ y ∈ Finset.range year, daysOfYear y + 5) % 7
  := by
  rw [Date.weekday, Date.dayNumber, Date.dayOfYear]
  simp [newYear, Nat.add_assoc]

/-- The day after this one. -/
def Date.next (date : Date) : Date :=
  if hday : date.day < daysOfMonth date.year date.month then
    { date with
      day := date.day + 1
      day_pos := Nat.le_add_left 1 date.day
      day_le := hday }
  else if hmonth : date.month < 12 then
    { year := date.year
      month := date.month + 1
      day := 1
      month_pos := Nat.le_add_left 1 date.month
      month_le := hmonth
      day_pos := le_rfl
      day_le := daysOfMonth_pos date.year (date.month + 1) }
  else newYear (date.year + 1)

/-- It is the first one of all that come later. -/
theorem Date.before_iff (a b : Date) :
  a.Before b ↔ b = a.next ∨ a.next.Before b
  := by
  have hmonth_pos := b.month_pos
  have hmonth_le := b.month_le
  have hday_pos := b.day_pos
  -- no day of the same month comes after its last one
  have hlast : b.year = a.year → b.month = a.month → b.day ≤ daysOfMonth a.year a.month := by
    intro hyear hmonth
    rw [← hyear, ← hmonth]
    exact b.day_le
  rw [next, Date.ext_iff, Before]
  split_ifs with hday hmonth <;> rw [Before] <;> dsimp only [newYear] <;> omega

theorem Date.dayNumber_next (date : Date) :
  date.next.dayNumber = date.dayNumber + 1
  := by
  have hle := date.day_le
  rw [Date.next]
  split_ifs with hday hmonth
  · rfl
  · rw [dayNumber, dayNumber, dayOfYear, dayOfYear, Finset.sum_Ico_succ_top date.month_pos]
    dsimp only
    omega
  · have hdec : date.month = 12 := by
      have := date.month_le
      omega
    have hyear := sum_daysOfMonth date.year
    rw [Finset.sum_Ico_succ_top (by decide)] at hyear
    rw [dayNumber, dayNumber, dayOfYear, dayOfYear, newYear, Finset.sum_range_succ, ← hyear, hdec]
    rw [hdec] at hday hle
    simp
    omega

/-- Successive dates have successive days of the week. -/
theorem Date.weekday_next (date : Date) :
  date.next.weekday = (date.weekday + 1) % 7
  := by
  rw [weekday, weekday, dayNumber_next]
  omega

end Calendar
