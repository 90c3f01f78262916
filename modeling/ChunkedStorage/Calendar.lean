import ChunkedStorage.Duration

/-!
# The calendar

Dates and hours of points in time, in the Gregorian calendar and universal time. Dates repeat every four hundred years.
Within such a cycle years start in March, so that a leap day is the last day of its year.
-/

namespace ChunkedStorage

structure Date where
  year : Int
  month : Nat
  day : Nat
deriving DecidableEq

namespace Date

/-- The days of a cycle of four hundred years. -/
def cycleDays : Nat := 146097

/-- The days from the first of March of the year 0 to the start of 1970. -/
def daysBefore1970 : Nat := 719468

/-- The year of a cycle that a day of it lies in: without the leap days before it, every year has 365 days. -/
def yearInCycle (day : Nat) : Nat := (day - day / 1460 + day / 36524 - day / 146096) / 365

/-- The days of a cycle before a year of it. -/
def daysBeforeYear (year : Nat) : Nat := 365 * year + year / 4 - year / 100

/-- The days of a year before a month of it, where March is month 0. -/
def daysBeforeMonth (month : Nat) : Nat := (153 * month + 2) / 5

/-- The date of a day, which is counted from the start of 1970. -/
def ofDay (day : Int) : Date :=
  let shifted := day + daysBefore1970
  let inCycle := (shifted % cycleDays).toNat
  let year := yearInCycle inCycle
  let inYear := inCycle - daysBeforeYear year
  let month := (5 * inYear + 2) / 153
  let isNextYear := 10 ≤ month
  { year := shifted / cycleDays * 400 + year + if isNextYear then 1 else 0
    month := if isNextYear then month - 9 else month + 3
    day := inYear - daysBeforeMonth month + 1 }

end Date

namespace Timestamp

def secondsPerHour : Nat := 3600

/-- The whole hours since the start of 1970. -/
def hours (t : Timestamp) : Int := t.nanos / (secondsPerHour * Duration.perSecond : Nat)

def date (t : Timestamp) : Date := .ofDay (t.hours / 24)

def hourOfDay (t : Timestamp) : Nat := (t.hours % 24).toNat

end Timestamp

end ChunkedStorage
