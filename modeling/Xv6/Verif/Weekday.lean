import Xv6.User.Date
import Mathlib.Tactic.Common
import Mathlib.Tactic.IntervalCases

/-!
# The Gregorian weekday

The calendar by its rules: which years are leap years, how long the months are, and which date
follows a date. `dayofweek` is compared with the count of the days from the first of January of
year 1 on.
-/

namespace Xv6

/-- A leap year. -/
def Leap (y : Nat) : Prop := 4 ∣ y ∧ (¬ 100 ∣ y ∨ 400 ∣ y)

instance (y : Nat) : Decidable (Leap y) := inferInstanceAs (Decidable (_ ∧ _))

/-- The length of a month. -/
def monthLength (y m : Nat) : Nat :=
  if m = 2 then if Leap y then 29 else 28
  else if m ∈ [4, 6, 9, 11] then 30
  else 31

/-- A date of the proleptic Gregorian calendar. -/
structure Date where
  y : Nat
  m : Nat
  d : Nat
  year : 1 ≤ y
  month : 1 ≤ m ∧ m ≤ 12
  day : 1 ≤ d ∧ d ≤ monthLength y m

/-- A month has days. -/
theorem monthLength_pos (y m : Nat) : 1 ≤ monthLength y m := by
  unfold monthLength
  split_ifs <;> decide

/-- The next date. -/
def Date.next (date : Date) : Date :=
  if inside : date.d < monthLength date.y date.m then
    { date with d := date.d + 1, day := ⟨by omega, inside⟩ }
  else if last : date.m = 12 then
    ⟨date.y + 1, 1, 1, by omega, by omega, by omega, monthLength_pos _ _⟩
  else
    ⟨date.y, date.m + 1, 1, date.year, by have := date.month; omega, by omega, monthLength_pos _ _⟩

/-- The days of the years before `y + 1`. -/
def daysOfYears : Nat → Nat
  | 0 => 0
  | y + 1 => daysOfYears y + if Leap (y + 1) then 366 else 365

/-- The days of year `y` before month `m + 1`. -/
def daysOfMonths (y : Nat) : Nat → Nat
  | 0 => 0
  | m + 1 => daysOfMonths y m + monthLength y (m + 1)

/-- The days up to a date and with it, from the first of January of year 1 on. -/
def Date.number (date : Date) : Nat :=
  daysOfYears (date.y - 1) + daysOfMonths date.y (date.m - 1) + date.d

/-- The leap years up to `y`. -/
def leaps (y : Nat) : Nat := y / 4 - y / 100 + y / 400

/-- The leap years up to a year. -/
theorem leaps_succ (y : Nat) : leaps (y + 1) = leaps y + if Leap (y + 1) then 1 else 0 := by
  have century : 100 ∣ y + 1 → 4 ∣ y + 1 := Nat.dvd_trans (by decide)
  have fourth : 400 ∣ y + 1 → 100 ∣ y + 1 := Nat.dvd_trans (by decide)
  have fewer : y / 100 ≤ y / 4 := Nat.div_le_div_left (by decide) (by decide)
  unfold leaps Leap
  rw [Nat.succ_div, Nat.succ_div, Nat.succ_div]
  grind

/-- The days before a year. -/
theorem daysOfYears_eq (y : Nat) : daysOfYears y = 365 * y + leaps y := by
  induction y with
  | zero => rfl
  | succ y ih =>
    rw [daysOfYears, leaps_succ, ih]
    split <;> omega

/-- The days of a year. -/
theorem daysOfMonths_year (y : Nat) : daysOfMonths y 12 = if Leap y then 366 else 365 := by
  by_cases leap : Leap y <;> simp [daysOfMonths, monthLength, leap]

/-- The count goes up by one from each date to the next. -/
theorem Date.number_next (date : Date) : date.next.number = date.number + 1 := by
  obtain ⟨y, m, d, year, month, day⟩ := date
  unfold next
  split_ifs with inside last
  · rfl
  · dsimp only at *
    subst last
    have months : daysOfMonths y 12 = daysOfMonths y 11 + monthLength y 12 := rfl
    have := daysOfMonths_year y
    obtain ⟨k, rfl⟩ := Nat.exists_eq_add_of_le' year
    simp [number, daysOfYears, daysOfMonths] at *
    omega
  · dsimp only at *
    obtain ⟨k, rfl⟩ := Nat.exists_eq_add_of_le' month.1
    simp [number, daysOfMonths] at *
    omega

/-- From year 1 on, nothing that is divided is negative. -/
theorem dayofweek_floor (k m d : Nat) :
    dayofweek (k + 1 : Nat) m d =
      (if m < 3 then 23 * m / 9 + d + k + 5 + leaps k else 23 * m / 9 + d + k + 3 + leaps (k + 1))
        % 7 := by
  have quotients (n : Nat) :
      (n : Int).tdiv 4 - (n : Int).tdiv 100 + (n : Int).tdiv 400 = leaps n := by
    have fewer : n / 100 ≤ n / 4 := Nat.div_le_div_left (by decide) (by decide)
    simp only [leaps, Nat.cast_add, Nat.cast_sub fewer]
    rfl
  have months : (23 * (m : Int)).tdiv 9 = (23 * m / 9 : Nat) := rfl
  have before := quotients k
  have within := quotients (k + 1)
  have cast : (m : Int) < 3 ↔ m < 3 := by omega
  unfold dayofweek
  simp only [cast]
  rw [Nat.cast_succ] at *
  split_ifs
  all_goals
    simp only [Int.add_sub_cancel]
    rw [months, Int.tmod_eq_emod_of_nonneg (by omega)]
    omega

/-- `dayofweek` is the number of the day modulo seven. -/
theorem dayofweek_number (date : Date) : dayofweek date.y date.m date.d = date.number % 7 := by
  obtain ⟨y, m, d, year, ⟨first, last⟩, day⟩ := date
  obtain ⟨k, rfl⟩ := Nat.exists_eq_add_of_le' year
  have years := daysOfYears_eq k
  have next := leaps_succ k
  simp only [dayofweek_floor, Date.number, Nat.add_sub_cancel]
  by_cases leap : Leap (k + 1)
  all_goals
    simp only [leap, ↓reduceIte] at next
    interval_cases m
    all_goals
      simp [daysOfMonths, monthLength, leap]
      omega

/-- `dayofweek` is the weekday: it starts with a Monday in year 1, goes up by one modulo 7 from each
date to the next, and is 6 on the first of January 2000. -/
theorem dayofweek_weekday (date : Date) :
    (0 ≤ dayofweek date.y date.m date.d ∧ dayofweek date.y date.m date.d ≤ 6) ∧
    dayofweek date.y date.m date.d = date.number % 7 ∧
    dayofweek date.next.y date.next.m date.next.d =
      (dayofweek date.y date.m date.d + 1) % 7 ∧
    dayofweek 2000 1 1 = 6 := by
  have step := date.number_next
  rw [dayofweek_number, dayofweek_number]
  refine ⟨by omega, rfl, by omega, by decide⟩

end Xv6
