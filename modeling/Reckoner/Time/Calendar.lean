/-!
# The calendar

Dates of the Gregorian calendar, extended to all years, and their numbers: day 0 is the first
of January of year 1.
-/

namespace Reckoner

/-- A date; months and days count from one. -/
structure Date where
  /-- The year; zero is the one before year 1. -/
  year : Int
  month : Nat
  day : Nat
  deriving DecidableEq, Repr

namespace Date

/-- Whether the year has a leap day: every fourth one, but of full centuries only every fourth. -/
def isLeap (year : Int) : Bool := year % 4 = 0 && (year % 100 ≠ 0 || year % 400 = 0)

/-- The number of days of a month. -/
def daysIn (month : Nat) (year : Int) : Nat :=
  if month = 2 then (if isLeap year then 29 else 28)
  else if month = 4 || month = 6 || month = 9 || month = 11 then 30 else 31

/-- The number of the day. Years are counted from March here, so that the leap day is the last
day of its year. -/
def dayNumber (d : Date) : Int :=
  let y := if d.month ≤ 2 then d.year - 1 else d.year
  let era := y.fdiv 400
  let inEra := y - era * 400
  let fromMarch : Int := if 2 < d.month then (d.month : Int) - 3 else (d.month : Int) + 9
  let dayOfYear := (153 * fromMarch + 2) / 5 + d.day - 1
  era * 146097 + inEra * 365 + inEra / 4 - inEra / 100 + dayOfYear - 306

/-- The date of a day. -/
def ofDayNumber (n : Int) : Date :=
  let z := n + 306
  let era := z.fdiv 146097
  let dayOfEra := z - era * 146097
  let inEra := (dayOfEra - dayOfEra / 1460 + dayOfEra / 36524 - dayOfEra / 146096) / 365
  let dayOfYear := dayOfEra - (365 * inEra + inEra / 4 - inEra / 100)
  let fromMarch := (5 * dayOfYear + 2) / 153
  let day := dayOfYear - (153 * fromMarch + 2) / 5 + 1
  let month := if fromMarch < 10 then fromMarch + 3 else fromMarch - 9
  let year := inEra + era * 400
  ⟨if month ≤ 2 then year + 1 else year, month.toNat, day.toNat⟩

end Date

end Reckoner
