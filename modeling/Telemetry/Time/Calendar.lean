/-!
Days and dates of the Gregorian calendar, extended to all years.

A date is numbered by the days since 1970-01-01. Both directions count in eras of 400 years, which
have a fixed number of days, with the year taken to begin in March so that the leap day ends it.
-/

set_option autoImplicit false

namespace Telemetry.Time

/-! ## Dates -/

/-- A day of a month of a year. -/
structure Date where
  year : Int
  month : Nat
  day : Nat
  deriving DecidableEq, Repr

/-- Whether a year has a 29th of February. -/
def isLeapYear (year : Int) : Bool := year % 4 = 0 ∧ (year % 100 ≠ 0 ∨ year % 400 = 0)

/-- The number of days of a month; none for what is no month. -/
def daysInMonth (year : Int) (month : Nat) : Nat :=
  if month = 2 then if isLeapYear year then 29 else 28
  else if month = 4 ∨ month = 6 ∨ month = 9 ∨ month = 11 then 30
  else if 1 ≤ month ∧ month ≤ 12 then 31
  else 0

/-- Whether the calendar has the date. -/
def Date.exists? (d : Date) : Bool := 1 ≤ d.day && d.day ≤ daysInMonth d.year d.month

/-! ## Day numbers -/

/-- The number of a date. -/
def Date.toDayNumber (d : Date) : Int :=
  let year := if d.month ≤ 2 then d.year - 1 else d.year
  let era := year / 400
  let yearOfEra := year - era * 400
  let monthFromMarch : Int := if 2 < d.month then Int.ofNat d.month - 3 else Int.ofNat d.month + 9
  let dayOfYear := (153 * monthFromMarch + 2) / 5 + d.day - 1
  era * 146097 + (yearOfEra * 365 + yearOfEra / 4 - yearOfEra / 100 + dayOfYear) - 719468

/-- The date with a given number. -/
def Date.ofDayNumber (n : Int) : Date :=
  let shifted := n + 719468
  let era := shifted / 146097
  let dayOfEra := shifted - era * 146097
  let yearOfEra := (dayOfEra - dayOfEra / 1460 + dayOfEra / 36524 - dayOfEra / 146096) / 365
  let dayOfYear := dayOfEra - (365 * yearOfEra + yearOfEra / 4 - yearOfEra / 100)
  let monthFromMarch := (5 * dayOfYear + 2) / 153
  let month := if monthFromMarch < 10 then monthFromMarch + 3 else monthFromMarch - 9
  { year := yearOfEra + era * 400 + (if month ≤ 2 then 1 else 0)
    month := month.toNat
    day := (dayOfYear - (153 * monthFromMarch + 2) / 5 + 1).toNat }

/-- The first and the last year in which date arithmetic is defined. -/
def firstYear : Int := -262143
@[inherit_doc firstYear] def lastYear : Int := 262142

end Telemetry.Time
