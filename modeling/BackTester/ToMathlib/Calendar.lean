import Mathlib.Algebra.BigOperators.Intervals
import Mathlib.Algebra.Order.BigOperators.Group.Finset
import Mathlib.Tactic.IntervalCases
import Mathlib.Tactic.Linarith

/-! # The proleptic Gregorian calendar

Years and months as stretches of days one behind the other. A date is a day of a month of a year;
its number counts the days from the first of January of the year 0, and every number is that of a
date.
-/

namespace Calendar

def IsLeap (year : ℕ) : Prop := year % 4 = 0 ∧ (year % 100 ≠ 0 ∨ year % 400 = 0)

instance (year : ℕ) : Decidable (IsLeap year) := inferInstanceAs (Decidable (_ ∧ _))

def yearLength (year : ℕ) : ℕ := if IsLeap year then 366 else 365

def monthLength (year month : ℕ) : ℕ :=
  if month = 2 then if IsLeap year then 29 else 28
  else if month = 4 ∨ month = 6 ∨ month = 9 ∨ month = 11 then 30
  else 31

theorem monthLength_le (year month : ℕ) : monthLength year month ≤ 31 := by
  unfold monthLength
  split_ifs <;> omega

def daysBeforeYear (year : ℕ) : ℕ := ∑ earlier ∈ Finset.range year, yearLength earlier

def daysBeforeMonth (year month : ℕ) : ℕ := ∑ earlier ∈ Finset.Ico 1 month, monthLength year earlier

theorem daysBeforeYear_succ (year : ℕ) : daysBeforeYear (year + 1) = daysBeforeYear year + yearLength year :=
  Finset.sum_range_succ _ _

theorem daysBeforeYear_mono {year later : ℕ} (le : year ≤ later) : daysBeforeYear year ≤ daysBeforeYear later :=
  Finset.sum_le_sum_of_subset (Finset.range_mono le)

/-- A period begins with a year that its length divides. -/
theorem periods_succ (year period : ℕ) :
    (year + 1 + period) / (period + 1) = (year + period) / (period + 1) + if period + 1 ∣ year then 1 else 0 := by
  have begins : period + 1 ∣ year + period + 1 ↔ period + 1 ∣ year := Nat.dvd_add_left (Nat.dvd_refl _)
  rw [Nat.add_right_comm, Nat.succ_div]
  simp only [begins]

/-- A year is longer for the fours of years, less so for the centuries. -/
theorem yearLength_add (year : ℕ) : yearLength year + (if 100 ∣ year then 1 else 0) =
    365 + (if 4 ∣ year then 1 else 0) + if 400 ∣ year then 1 else 0 := by
  have ofEra (era : 400 ∣ year) : 100 ∣ year := Nat.dvd_trans (by decide) era
  have ofCentury (century : 100 ∣ year) : 4 ∣ year := Nat.dvd_trans (by decide) century
  simp only [yearLength, IsLeap, ne_eq, ← Nat.dvd_iff_mod_eq_zero]
  by_cases quarter : 4 ∣ year <;> by_cases century : 100 ∣ year <;> by_cases era : 400 ∣ year <;> simp_all

theorem daysBeforeYear_eq (year : ℕ) :
    daysBeforeYear year + (year + 99) / 100 = 365 * year + (year + 3) / 4 + (year + 399) / 400 := by
  induction year with
  | zero => rfl
  | succ year ih =>
    have quarters : (year + 1 + 3) / 4 = (year + 3) / 4 + if 4 ∣ year then 1 else 0 := periods_succ year 3
    have centuries : (year + 1 + 99) / 100 = (year + 99) / 100 + if 100 ∣ year then 1 else 0 := periods_succ year 99
    have eras : (year + 1 + 399) / 400 = (year + 399) / 400 + if 400 ∣ year then 1 else 0 := periods_succ year 399
    rw [daysBeforeYear_succ, quarters, centuries, eras]
    linarith only [ih, yearLength_add year]

theorem le_daysBeforeYear (year : ℕ) : year ≤ daysBeforeYear year := by
  have := daysBeforeYear_eq year
  omega

theorem daysBeforeMonth_succ (year : ℕ) {month : ℕ} (positive : 1 ≤ month) :
    daysBeforeMonth year (month + 1) = daysBeforeMonth year month + monthLength year month :=
  Finset.sum_Ico_succ_top positive _

theorem daysBeforeMonth_mono (year : ℕ) {month later : ℕ} (le : month ≤ later) :
    daysBeforeMonth year month ≤ daysBeforeMonth year later :=
  Finset.sum_le_sum_of_subset (Finset.Ico_subset_Ico_right le)

theorem daysBeforeMonth_one (year : ℕ) : daysBeforeMonth year 1 = 0 := rfl

/-- The months fill the year. -/
theorem daysBeforeMonth_thirteen (year : ℕ) : daysBeforeMonth year 13 = yearLength year := by
  by_cases leap : IsLeap year <;> simp [daysBeforeMonth, Finset.sum_Ico_succ_top, monthLength, yearLength, leap]

/-- The stretch that a number is in, of those that the sequence cuts. -/
def stretch (total : ℕ → ℕ) (n : ℕ) (beyond : ∃ k, n < total (k + 1)) : ℕ := Nat.find beyond

theorem lt_stretch_succ {total : ℕ → ℕ} {n : ℕ} (beyond : ∃ k, n < total (k + 1)) :
    n < total (stretch total n beyond + 1) :=
  Nat.find_spec beyond

theorem stretch_le {total : ℕ → ℕ} {n : ℕ} (zero : total 0 = 0) (beyond : ∃ k, n < total (k + 1)) :
    total (stretch total n beyond) ≤ n := by
  cases isStretch : stretch total n beyond with
  | zero => omega
  | succ k => exact Nat.le_of_not_lt (Nat.find_min beyond (by rw [← stretch, isStretch]; exact Nat.lt_succ_self k))

theorem stretch_lt {total : ℕ → ℕ} {n last : ℕ} (beyond : ∃ k, n < total (k + 1)) (before : n < total (last + 1)) :
    stretch total n beyond < last + 1 :=
  Nat.lt_succ_of_le (Nat.find_min' beyond before)

structure Date where
  year : ℕ
  month : ℕ
  day : ℕ
  month_pos : 1 ≤ month
  month_le : month ≤ 12
  day_pos : 1 ≤ day
  day_le : day ≤ monthLength year month

def Date.dayNumber (date : Date) : ℕ := daysBeforeYear date.year + daysBeforeMonth date.year date.month + (date.day - 1)

theorem exists_year (n : ℕ) : ∃ year, n < daysBeforeYear (year + 1) := ⟨n, le_daysBeforeYear (n + 1)⟩

def yearOf (n : ℕ) : ℕ := stretch daysBeforeYear n (exists_year n)

def dayOfYear (n : ℕ) : ℕ := n - daysBeforeYear (yearOf n)

theorem dayOfYear_lt (n : ℕ) : dayOfYear n < daysBeforeMonth (yearOf n) (11 + 1 + 1) := by
  have below : n < daysBeforeYear (yearOf n + 1) := lt_stretch_succ (exists_year n)
  have above : daysBeforeYear (yearOf n) ≤ n := stretch_le rfl (exists_year n)
  rw [daysBeforeYear_succ] at below
  rw [daysBeforeMonth_thirteen, dayOfYear]
  omega

/-- The date of a day. -/
def Date.ofDayNumber (n : ℕ) : Date :=
  let months := fun k => daysBeforeMonth (yearOf n) (k + 1)
  let beyond : ∃ k, dayOfYear n < months (k + 1) := ⟨11, dayOfYear_lt n⟩
  let before := stretch months (dayOfYear n) beyond
  { year := yearOf n
    month := before + 1
    day := dayOfYear n - months before + 1
    month_pos := Nat.le_add_left 1 before
    month_le := stretch_lt beyond (dayOfYear_lt n)
    day_pos := Nat.le_add_left 1 _
    day_le := by
      have below : dayOfYear n < daysBeforeMonth (yearOf n) (before + 1 + 1) := lt_stretch_succ beyond
      have above : months before ≤ dayOfYear n := stretch_le rfl beyond
      rw [daysBeforeMonth_succ _ (Nat.le_add_left 1 before)] at below
      dsimp only [months] at above ⊢
      omega }

theorem Date.dayNumber_ofDayNumber (n : ℕ) : (Date.ofDayNumber n).dayNumber = n := by
  have above : daysBeforeYear (yearOf n) ≤ n := stretch_le rfl (exists_year n)
  have begun : daysBeforeMonth (yearOf n) (Date.ofDayNumber n).month ≤ dayOfYear n :=
    @stretch_le (fun k => daysBeforeMonth (yearOf n) (k + 1)) (dayOfYear n) rfl ⟨11, dayOfYear_lt n⟩
  have isDay : (Date.ofDayNumber n).day = dayOfYear n - daysBeforeMonth (yearOf n) (Date.ofDayNumber n).month + 1 := rfl
  have isYear : (Date.ofDayNumber n).year = yearOf n := rfl
  rw [Date.dayNumber, isYear, isDay]
  rw [dayOfYear] at begun ⊢
  omega

theorem Date.dayNumber_lt (date : Date) : date.dayNumber < daysBeforeYear (date.year + 1) := by
  have within := daysBeforeMonth_mono date.year (Nat.succ_le_succ date.month_le)
  rw [Nat.succ_eq_add_one, daysBeforeMonth_succ _ date.month_pos, daysBeforeMonth_thirteen] at within
  rw [daysBeforeYear_succ, Date.dayNumber]
  have := date.day_pos
  have := date.day_le
  omega

/-- Days are numbered in the order of the calendar. -/
theorem Date.dayNumber_lt_of_lt {date later : Date}
    (before : [date.year, date.month, date.day] < [later.year, later.month, later.day]) :
    date.dayNumber < later.dayNumber := by
  have dayPos := date.day_pos
  simp only [List.cons_lt_cons_iff, List.not_lt_nil, and_false, or_false] at before
  rcases before with earlierYear | ⟨sameYear, earlierMonth | ⟨sameMonth, earlierDay⟩⟩
  · calc date.dayNumber < daysBeforeYear (date.year + 1) := date.dayNumber_lt
      _ ≤ daysBeforeYear later.year := daysBeforeYear_mono earlierYear
      _ ≤ later.dayNumber := by rw [Date.dayNumber]; omega
  · have months := daysBeforeMonth_mono date.year (Nat.succ_le_of_lt earlierMonth)
    have dayLe := date.day_le
    rw [Nat.succ_eq_add_one, daysBeforeMonth_succ _ date.month_pos] at months
    rw [Date.dayNumber, Date.dayNumber, ← sameYear]
    omega
  · rw [Date.dayNumber, Date.dayNumber, ← sameYear, ← sameMonth]
    omega

/-- The year of a date by the number of its day. -/
theorem Date.year_bounds (date : Date) {first last : ℕ} (since : daysBeforeYear first ≤ date.dayNumber)
    (before : date.dayNumber < daysBeforeYear last) : first ≤ date.year ∧ date.year < last := by
  constructor
  · by_contra early
    have := daysBeforeYear_mono (by omega : date.year + 1 ≤ first)
    have := date.dayNumber_lt
    omega
  · by_contra late
    have := daysBeforeYear_mono (by omega : last ≤ date.year)
    rw [Date.dayNumber] at before
    omega

/-- The day that moments are counted from: the first of January 1970. -/
def epochDay : ℕ := daysBeforeYear 1970

theorem epochDay_eq : epochDay = 719528 := by
  have := daysBeforeYear_eq 1970
  unfold epochDay
  omega

/-- A nanosecond of a second of a day. -/
structure Moment where
  date : Date
  hour : ℕ
  minute : ℕ
  second : ℕ
  nanos : ℕ
  hour_lt : hour < 24
  minute_lt : minute < 60
  second_lt : second < 60
  nanos_lt : nanos < 1000000000

namespace Moment

/-- Seconds since the epoch. -/
def seconds (moment : Moment) : ℤ :=
  ((moment.date.dayNumber : ℤ) - epochDay) * 86400 + moment.hour * 3600 + moment.minute * 60 + moment.second

/-- Nanoseconds since the epoch. -/
def time (moment : Moment) : ℤ := moment.seconds * 1000000000 + moment.nanos

/-- What a moment is written with, from the year down. -/
def fields (moment : Moment) : List ℕ :=
  [moment.date.year, moment.date.month, moment.date.day, moment.hour, moment.minute, moment.second, moment.nanos]

/-- Chronological order. -/
def Before (moment later : Moment) : Prop := moment.fields < later.fields

theorem time_lt_of_before {moment later : Moment} (before : moment.Before later) : moment.time < later.time := by
  have hour := moment.hour_lt
  have minute := moment.minute_lt
  have second := moment.second_lt
  have nanos := moment.nanos_lt
  have days : moment.date.dayNumber < later.date.dayNumber ∨ moment.date.dayNumber = later.date.dayNumber ∧
      [moment.hour, moment.minute, moment.second, moment.nanos] <
        [later.hour, later.minute, later.second, later.nanos] := by
    simp only [Before, fields, List.cons_lt_cons_iff] at before
    rcases before with year | ⟨sameYear, month | ⟨sameMonth, day | ⟨sameDay, ofDay⟩⟩⟩
    · exact .inl (Date.dayNumber_lt_of_lt (by simp [List.cons_lt_cons_iff, year]))
    · exact .inl (Date.dayNumber_lt_of_lt (by simp [List.cons_lt_cons_iff, sameYear, month]))
    · exact .inl (Date.dayNumber_lt_of_lt (by simp [List.cons_lt_cons_iff, sameYear, sameMonth, day]))
    · refine .inr ⟨?_, by simpa only [List.cons_lt_cons_iff] using ofDay⟩
      rw [Date.dayNumber, Date.dayNumber, sameYear, sameMonth, sameDay]
  simp only [List.cons_lt_cons_iff, List.not_lt_nil, and_false, or_false] at days
  unfold time seconds
  omega

/-- The moment of a time that is not before the year 0. -/
def ofTime (time : ℤ) : Moment where
  date := .ofDayNumber (time / 1000000000 / 86400 + epochDay).toNat
  hour := (time / 1000000000 % 86400).toNat / 3600
  minute := (time / 1000000000 % 86400).toNat / 60 % 60
  second := (time / 1000000000 % 86400).toNat % 60
  nanos := (time % 1000000000).toNat
  hour_lt := by omega
  minute_lt := by omega
  second_lt := by omega
  nanos_lt := by omega

end Moment

/-- The time at which a year begins. -/
def startOfYear (year : ℕ) : ℤ := ((daysBeforeYear year : ℤ) - epochDay) * 86400 * 1000000000

namespace Moment

theorem time_ofTime {time : ℤ} (since : startOfYear 0 ≤ time) : (ofTime time).time = time := by
  have zero : daysBeforeYear 0 = 0 := rfl
  unfold startOfYear at since
  rw [zero] at since
  unfold Moment.time seconds ofTime
  dsimp only
  rw [Date.dayNumber_ofDayNumber]
  omega

theorem year_ofTime {time : ℤ} {first last : ℕ} (since : startOfYear first ≤ time) (before : time < startOfYear last) :
    first ≤ (ofTime time).date.year ∧ (ofTime time).date.year < last := by
  unfold startOfYear at since before
  apply Date.year_bounds <;>
  · unfold ofTime
    dsimp only
    rw [Date.dayNumber_ofDayNumber]
    omega

end Moment

end Calendar
