/-!
# The civil calendar

Dates of the proleptic Gregorian calendar, counted in days from 1970-01-01. Days are counted in
years that begin in March, so that a leap day is the last day of its year; four hundred years, an
era, have 146097 days.
-/

namespace LedgerExport.Time

/-- A year is a leap year when four divides it, but of the centuries only each fourth is. -/
def isLeapYear (y : Int) : Bool := y % 4 == 0 && (y % 100 != 0 || y % 400 == 0)

/-- The number of days of a month, and zero for a number that is no month. -/
def daysInMonth (y : Int) : Nat → Nat
  | 1 | 3 | 5 | 7 | 8 | 10 | 12 => 31
  | 4 | 6 | 9 | 11 => 30
  | 2 => if isLeapYear y then 29 else 28
  | _ => 0

/-- A day of the calendar; January is month 1, and the first of a month is day 1. -/
structure Date where
  /-- The year; the year before year 1 is year 0. -/
  year : Int
  /-- The month. -/
  month : Nat
  /-- The day of the month. -/
  day : Nat
deriving DecidableEq, Repr

namespace Date

/-- The first and the last year that a date may have. -/
def yearRange : Int × Int := (-262143, 262142)

/-- The month exists, it has the day, and the year is in range. -/
def Valid (d : Date) : Prop :=
  yearRange.1 ≤ d.year ∧ d.year ≤ yearRange.2 ∧ 1 ≤ d.day ∧ d.day ≤ daysInMonth d.year d.month

instance (d : Date) : Decidable d.Valid := by unfold Valid; infer_instance

/-- The days from 1970-01-01 to the date. -/
def toDays (d : Date) : Int :=
  let y := if d.month ≤ 2 then d.year - 1 else d.year
  let yearOfEra := y % 400
  let month : Int := (d.month + 9) % 12
  let dayOfYear := (153 * month + 2) / 5 + d.day - 1
  y / 400 * 146097 + (yearOfEra * 365 + yearOfEra / 4 - yearOfEra / 100 + dayOfYear) - 719468

/-- The date that is `n` days from 1970-01-01. -/
def ofDays (n : Int) : Date :=
  let era := (n + 719468) / 146097
  let dayOfEra := (n + 719468) % 146097
  let yearOfEra := (dayOfEra - dayOfEra / 1460 + dayOfEra / 36524 - dayOfEra / 146096) / 365
  let dayOfYear := dayOfEra - (365 * yearOfEra + yearOfEra / 4 - yearOfEra / 100)
  let month := (5 * dayOfYear + 2) / 153
  let day := dayOfYear - (153 * month + 2) / 5 + 1
  if month < 10 then ⟨era * 400 + yearOfEra, (month + 3).toNat, day.toNat⟩
  else ⟨era * 400 + yearOfEra + 1, (month - 9).toNat, day.toNat⟩

end Date

end LedgerExport.Time
