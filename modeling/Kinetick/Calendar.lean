import Mathlib.Data.Int.Notation
import Mathlib.Data.Int.Order.Basic
import Mathlib.Tactic.SplitIfs

/-!
# The calendar

The proleptic Gregorian calendar over the integers. A day is counted from the first of January 1970,
a second from its midnight; months are counted from 1. What a second reads in the calendar gives the
second back.
-/

namespace Kinetick

namespace Calendar

structure DateTime where
  year : ℤ
  month : ℤ
  day : ℤ
  hour : ℤ
  minute : ℤ
  second : ℤ
  deriving DecidableEq

/-- The days of February beyond 28. -/
def leapDay (year : ℤ) : ℤ := if year % 4 = 0 ∧ (year % 100 ≠ 0 ∨ year % 400 = 0) then 1 else 0

/-- The first day of a year. -/
def dayFromYear (year : ℤ) : ℤ :=
  365 * (year - 1970) + (year - 1969) / 4 - (year - 1901) / 100 + (year - 1601) / 400

/-- The days of a year before its month, which is counted from 0. -/
def daysBeforeMonth (leap month : ℤ) : ℤ :=
  if month ≤ 0 then 0
  else if month = 1 then 31
  else if month = 2 then 59 + leap
  else if month = 3 then 90 + leap
  else if month = 4 then 120 + leap
  else if month = 5 then 151 + leap
  else if month = 6 then 181 + leap
  else if month = 7 then 212 + leap
  else if month = 8 then 243 + leap
  else if month = 9 then 273 + leap
  else if month = 10 then 304 + leap
  else 334 + leap

/-- The day of a date, whose month is counted from 0 and may lie in another year, and whose day may
lie in another month. -/
def makeDay (year month date : ℤ) : ℤ :=
  let y := year + month / 12
  dayFromYear y + daysBeforeMonth (leapDay y) (month % 12) + date - 1

def secondsOf (t : DateTime) : ℤ :=
  86400 * makeDay t.year (t.month - 1) t.day + 3600 * t.hour + 60 * t.minute + t.second

/-- The year a day is in: whole cycles of 400 years, and in the rest centuries, cycles of 4 years and
years, where the last century and the last year of a cycle have a day more. -/
def yearFromDay (day : ℤ) : ℤ :=
  let n := day + 719162
  let centuries := min (n % 146097 / 36524) 3
  let inCentury := n % 146097 - 36524 * centuries
  let years := min (inCentury % 1461 / 365) 3
  400 * (n / 146097) + 100 * centuries + 4 * (inCentury / 1461) + years + 1

/-- The month a day of a year is in, counted from 0. -/
def monthWithinYear (leap n : ℤ) : ℤ :=
  if n < 31 then 0
  else if n < 59 + leap then 1
  else if n < 90 + leap then 2
  else if n < 120 + leap then 3
  else if n < 151 + leap then 4
  else if n < 181 + leap then 5
  else if n < 212 + leap then 6
  else if n < 243 + leap then 7
  else if n < 273 + leap then 8
  else if n < 304 + leap then 9
  else if n < 334 + leap then 10
  else 11

/-- What a second reads. -/
def dateTime (seconds : ℤ) : DateTime :=
  let day := seconds / 86400
  let time := seconds % 86400
  let year := yearFromDay day
  let n := day - dayFromYear year
  let month := monthWithinYear (leapDay year) n
  { year
    month := month + 1
    day := n - daysBeforeMonth (leapDay year) month + 1
    hour := time / 3600
    minute := time / 60 % 60
    second := time % 60 }

/-- The days of a month, which is counted from 0. -/
def daysInMonth (leap month : ℤ) : ℤ :=
  if month = 1 then 28 + leap
  else if month = 3 ∨ month = 5 ∨ month = 8 ∨ month = 10 then 30
  else 31

/-- A date of the calendar and a time of its day. -/
structure DateTime.Valid (t : DateTime) : Prop where
  month : 1 ≤ t.month ∧ t.month ≤ 12
  day : 1 ≤ t.day ∧ t.day ≤ daysInMonth (leapDay t.year) (t.month - 1)
  hour : 0 ≤ t.hour ∧ t.hour < 24
  minute : 0 ≤ t.minute ∧ t.minute < 60
  second : 0 ≤ t.second ∧ t.second < 60

/-- A day is in the year it is said to be in. -/
theorem yearFromDay_spec (day : ℤ) :
    dayFromYear (yearFromDay day) ≤ day ∧
      day < dayFromYear (yearFromDay day) + 365 + leapDay (yearFromDay day) := by
  unfold yearFromDay dayFromYear leapDay
  simp only
  obtain ⟨n, hn⟩ : ∃ n, day + 719162 = n := ⟨_, rfl⟩
  obtain ⟨q, hq⟩ : ∃ q, n / 146097 = q := ⟨_, rfl⟩
  obtain ⟨r, hr⟩ : ∃ r, n % 146097 = r := ⟨_, rfl⟩
  obtain ⟨c, hc⟩ : ∃ c, min (r / 36524) 3 = c := ⟨_, rfl⟩
  obtain ⟨s, hs⟩ : ∃ s, r - 36524 * c = s := ⟨_, rfl⟩
  obtain ⟨k, hk⟩ : ∃ k, s / 1461 = k := ⟨_, rfl⟩
  obtain ⟨u, hu⟩ : ∃ u, s % 1461 = u := ⟨_, rfl⟩
  obtain ⟨y, hy⟩ : ∃ y, min (u / 365) 3 = y := ⟨_, rfl⟩
  simp only [hn, hq, hr, hc, hs, hk, hu, hy]
  have hc' : 0 ≤ c ∧ c ≤ 3 ∧ 0 ≤ s ∧ (s < 36524 ∨ c = 3 ∧ s ≤ 36524) := by omega
  have hy' : 0 ≤ y ∧ y ≤ 3 ∧ 365 * y ≤ u ∧ (u < 365 * y + 365 ∨ y = 3 ∧ u ≤ 365 * y + 365) := by omega
  have hk' : 0 ≤ k ∧ k ≤ 24 := by omega
  have hday : day = 146097 * q + 36524 * c + 1461 * k + u - 719162 := by omega
  have hfour : (400 * q + 100 * c + 4 * k + y + 1 - 1969) / 4 = 100 * q + 25 * c + k - 492 := by
    omega
  have hcentury : (400 * q + 100 * c + 4 * k + y + 1 - 1901) / 100 = 4 * q + c - 19 := by omega
  have hcycle : (400 * q + 100 * c + 4 * k + y + 1 - 1601) / 400 = q - 4 := by omega
  rw [hfour, hcentury, hcycle]
  have hleap : (400 * q + 100 * c + 4 * k + y + 1) % 4 = 0 ∧
      ((400 * q + 100 * c + 4 * k + y + 1) % 100 ≠ 0 ∨
        (400 * q + 100 * c + 4 * k + y + 1) % 400 = 0) ↔ y = 3 ∧ (k ≠ 24 ∨ c = 3) := by
    omega
  simp only [hleap]
  split_ifs <;> omega

theorem monthWithinYear_mem (leap n : ℤ) :
    0 ≤ monthWithinYear leap n ∧ monthWithinYear leap n ≤ 11 := by
  unfold monthWithinYear
  omega

theorem monthWithinYear_spec {leap n : ℤ} (hleap : leap = 0 ∨ leap = 1) (hn : 0 ≤ n)
    (hlast : n < 365 + leap) :
    daysBeforeMonth leap (monthWithinYear leap n) ≤ n ∧
      n < daysBeforeMonth leap (monthWithinYear leap n) +
        daysInMonth leap (monthWithinYear leap n) := by
  unfold monthWithinYear daysBeforeMonth daysInMonth
  omega

theorem leapDay_cases (year : ℤ) : leapDay year = 0 ∨ leapDay year = 1 := by
  unfold leapDay
  omega

theorem dateTime_valid (seconds : ℤ) : (dateTime seconds).Valid := by
  obtain ⟨hfirst, hlast⟩ := yearFromDay_spec (seconds / 86400)
  obtain ⟨year, hyear⟩ : ∃ year, yearFromDay (seconds / 86400) = year := ⟨_, rfl⟩
  rw [hyear] at hfirst hlast
  have hmonth := monthWithinYear_mem (leapDay year) (seconds / 86400 - dayFromYear year)
  have hday := monthWithinYear_spec (leapDay_cases year)
    (n := seconds / 86400 - dayFromYear year) (by omega) (by omega)
  constructor <;> simp only [dateTime, hyear, Int.add_sub_cancel] <;> omega

theorem secondsOf_dateTime (seconds : ℤ) : secondsOf (dateTime seconds) = seconds := by
  obtain ⟨day, hday⟩ : ∃ day, seconds / 86400 = day := ⟨_, rfl⟩
  obtain ⟨time, htime⟩ : ∃ time, seconds % 86400 = time := ⟨_, rfl⟩
  obtain ⟨year, hyear⟩ : ∃ year, yearFromDay day = year := ⟨_, rfl⟩
  obtain ⟨n, hn⟩ : ∃ n, day - dayFromYear year = n := ⟨_, rfl⟩
  obtain ⟨hlow, hhigh⟩ := monthWithinYear_mem (leapDay year) n
  obtain ⟨month, hmonth⟩ : ∃ month, monthWithinYear (leapDay year) n = month := ⟨_, rfl⟩
  rw [hmonth] at hlow hhigh
  have hquotient : (month + 1 - 1) / 12 = 0 := by omega
  have hrest : (month + 1 - 1) % 12 = month := by omega
  simp only [secondsOf, dateTime, makeDay, hday, htime, hyear, hn, hmonth, hquotient, hrest,
    Int.add_zero]
  omega

end Calendar

end Kinetick
