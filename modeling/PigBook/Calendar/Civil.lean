import Mathlib.Data.Int.Order.Basic
import Mathlib.Tactic.Common
import Mathlib.Tactic.IntervalCases
import Mathlib.Tactic.Ring

/-
  Dates of the proleptic Gregorian calendar.

  Days are counted from 1970-01-01.  A date is a year, a
  month from 1 to 12, and a day of the month.

  Key definitions include:
    * `dayFromYear`, `yearFromDay`
    * `Date`, `Date.day`, `dateFromDay`

  Key theorems include:
    * `yearFromDay_spec`
    * `dateFromDay_wellFormed`
    * `day_dateFromDay`
-/

------------------------------------------------------------
-- Years
------------------------------------------------------------

namespace Calendar

/- The number of the first day of a year. -/
def dayFromYear (y : ℤ) : ℤ :=
  365 * (y - 1970) + (y - 1969) / 4 - (y - 1901) / 100 +
    (y - 1601) / 400

def daysInYear (y : ℤ) : ℤ :=
  dayFromYear (y + 1) - dayFromYear y

theorem daysInYear_cases (y : ℤ) :
    daysInYear y = 365 ∨ daysInYear y = 366 := by
  unfold daysInYear dayFromYear
  omega

def isLeap (y : ℤ) : Bool :=
  daysInYear y = 366

/- The year of a day, from an estimate one year around it. -/
def yearFromDay (day : ℤ) : ℤ :=
  let y := 1970 + day * 400 / 146097
  if day < dayFromYear y then y - 1
  else if dayFromYear (y + 1) ≤ day then y + 1
  else y

theorem yearFromDay_spec (day : ℤ) :
    dayFromYear (yearFromDay day) ≤ day ∧
      day < dayFromYear (yearFromDay day + 1) := by
  unfold yearFromDay
  dsimp only
  have hEstimate :
      146097 * (day * 400 / 146097) ≤ day * 400 ∧
        day * 400 < 146097 * (day * 400 / 146097) + 146097 := by
    omega
  generalize day * 400 / 146097 = n at hEstimate
  by_cases hEarly : day < dayFromYear (1970 + n)
  · rw [if_pos hEarly, Int.sub_add_cancel]
    refine ⟨?_, hEarly⟩
    unfold dayFromYear
    omega
  · rw [if_neg hEarly]
    by_cases hLate : dayFromYear (1970 + n + 1) ≤ day
    · rw [if_pos hLate]
      refine ⟨hLate, ?_⟩
      unfold dayFromYear
      omega
    · rw [if_neg hLate]
      omega

end Calendar

------------------------------------------------------------
-- Months
------------------------------------------------------------

namespace Calendar

/- The days before a month, by the month's number. -/
def daysBefore (leap : Bool) (month : ℕ) : ℤ :=
  let extra := if leap then 1 else 0
  match month with
  | 1 => 0
  | 2 => 31
  | 3 => 59 + extra
  | 4 => 90 + extra
  | 5 => 120 + extra
  | 6 => 151 + extra
  | 7 => 181 + extra
  | 8 => 212 + extra
  | 9 => 243 + extra
  | 10 => 273 + extra
  | 11 => 304 + extra
  | _ => 334 + extra

/- The latest of the first months that begins by a day. -/
def latestMonth (leap : Bool) (dayWithinYear : ℤ) : ℕ → ℕ
| 0 => 1
| n + 1 =>
    if daysBefore leap (n + 2) ≤ dayWithinYear then n + 2
    else latestMonth leap dayWithinYear n

/- The month of a day within the year, which counts from 0. -/
def monthOf (leap : Bool) (dayWithinYear : ℤ) : ℕ :=
  latestMonth leap dayWithinYear 11

variable (leap : Bool) {d : ℤ}

theorem latestMonth_spec
    (hStart : 0 ≤ d)
    (n : ℕ) :
    (1 ≤ latestMonth leap d n ∧
      latestMonth leap d n ≤ n + 1) ∧
    daysBefore leap (latestMonth leap d n) ≤ d ∧
    (latestMonth leap d n = n + 1 ∨
      d < daysBefore leap (latestMonth leap d n + 1)) := by
  induction n with
  | zero => simp [latestMonth, daysBefore, hStart]
  | succ n ih =>
      unfold latestMonth
      by_cases hBegun : daysBefore leap (n + 2) ≤ d
      · rw [if_pos hBegun]
        exact ⟨by omega, hBegun, Or.inl rfl⟩
      · rw [if_neg hBegun]
        rcases ih with ⟨hNumber, hFrom, hLatest | hUntil⟩
        · refine ⟨by omega, hFrom, Or.inr ?_⟩
          rw [hLatest]
          exact not_le.mp hBegun
        · exact ⟨by omega, hFrom, Or.inr hUntil⟩

theorem daysBefore_succ
    {month : ℕ}
    (hMonth : 1 ≤ month ∧ month ≤ 11) :
    daysBefore leap (month + 1) ≤
      daysBefore leap month + 31 := by
  rcases hMonth with ⟨hFirst, hLast⟩
  interval_cases month <;> cases leap <;> decide

/- A month has a number, and at most 31 days. -/
theorem monthOf_spec
    (hStart : 0 ≤ d)
    (hEnd : d < if leap then 366 else 365) :
    (1 ≤ monthOf leap d ∧ monthOf leap d ≤ 12) ∧
      daysBefore leap (monthOf leap d) ≤ d ∧
      d < daysBefore leap (monthOf leap d) + 31 := by
  have hSpec := latestMonth_spec leap hStart 11
  unfold monthOf
  generalize latestMonth leap d 11 = month at hSpec
  rcases hSpec with ⟨hNumber, hFrom, hDecember | hUntil⟩
  · subst hDecember
    refine ⟨by omega, hFrom, ?_⟩
    cases leap <;> simp [daysBefore] at * <;> omega
  · refine ⟨hNumber, hFrom, ?_⟩
    have hNext : month ≤ 11 ∨ month = 12 := by omega
    rcases hNext with hNext | rfl
    · have hLength :=
        daysBefore_succ leap ⟨hNumber.1, hNext⟩
      omega
    · cases leap <;> simp [daysBefore] at * <;> omega

end Calendar

------------------------------------------------------------
-- Dates
------------------------------------------------------------

namespace Calendar

structure Date where
  year : ℤ
  month : ℕ
  dayOfMonth : ℕ
deriving DecidableEq

/- The number of the day. -/
def Date.day (date : Date) : ℤ :=
  dayFromYear date.year +
    daysBefore (isLeap date.year) date.month +
    date.dayOfMonth - 1

def dateFromDay (day : ℤ) : Date :=
  let year := yearFromDay day
  let dayWithinYear := day - dayFromYear year
  let month := monthOf (isLeap year) dayWithinYear
  { year := year
    month := month
    dayOfMonth :=
      (dayWithinYear - daysBefore (isLeap year) month +
        1).toNat }

/- The months and days of dates have at most two digits. -/
structure Date.WellFormed (date : Date) : Prop where
  month : 1 ≤ date.month ∧ date.month ≤ 12
  day : 1 ≤ date.dayOfMonth ∧ date.dayOfMonth ≤ 31

variable (day : ℤ)

theorem dayWithinYear_bounds :
    0 ≤ day - dayFromYear (yearFromDay day) ∧
      day - dayFromYear (yearFromDay day) <
        if isLeap (yearFromDay day) then 366 else 365 := by
  rcases yearFromDay_spec day with ⟨hStart, hEnd⟩
  have hLength := daysInYear_cases (yearFromDay day)
  refine ⟨by omega, ?_⟩
  unfold isLeap
  unfold daysInYear at *
  split_ifs with hLeap
  · omega
  · simp only [decide_eq_true_eq] at hLeap
    omega

theorem dateFromDay_wellFormed :
    (dateFromDay day).WellFormed := by
  rcases dayWithinYear_bounds day with ⟨hStart, hEnd⟩
  have hMonth := monthOf_spec _ hStart hEnd
  constructor
  · exact hMonth.1
  · unfold dateFromDay
    dsimp only
    omega

/- The date of a day has the number of that day. -/
theorem day_dateFromDay :
    (dateFromDay day).day = day := by
  rcases dayWithinYear_bounds day with ⟨hStart, hEnd⟩
  have hMonth := monthOf_spec _ hStart hEnd
  unfold Date.day dateFromDay
  dsimp only
  omega

/- The days of a range of years have dates in these years. -/
theorem yearFromDay_bounds
    {y y' : ℤ}
    (hStart : dayFromYear y ≤ day)
    (hEnd : day < dayFromYear y') :
    y ≤ yearFromDay day ∧ yearFromDay day < y' := by
  have hSpec := yearFromDay_spec day
  unfold dayFromYear at *
  omega

end Calendar
