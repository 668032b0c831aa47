import RouteCatalog.Text.Numeral

/-!
# Moments

A moment is a number of milliseconds since the beginning of 1970. Its stamp is the date and the time
of day with milliseconds, in universal time.

For the date, years are taken to begin in March. Then a leap day is the last day of its year, and
the months of a year begin at the same days in every year. Days are counted in periods of 400 years,
after which the calendar repeats itself.
-/

namespace RouteCatalog

/-- A moment, in milliseconds since the beginning of 1970. -/
structure Moment where
  millis : Nat
  deriving DecidableEq

namespace Moment

/-- The days of 400 years. -/
def period : Nat := 146097

/-- The days from the first of March of the year 0 to the beginning of 1970. -/
def epoch : Nat := 719468

/-- The year within its period, beginning in March, of a day of a period. -/
def yearOf (day : Nat) : Nat := (day - day / 1460 + day / 36524 - day / 146096) / 365

/-- The days of a period before a year that begins in March. -/
def daysBefore (year : Nat) : Nat := 365 * year + year / 4 - year / 100

/-- The days of a year before a month, both counted from March. -/
def daysBeforeMonth (month : Nat) : Nat := (153 * month + 2) / 5

/-- Year, month and day. -/
def date (m : Moment) : Nat × Nat × Nat :=
  let days := m.millis / 86400000 + epoch
  let year := yearOf (days % period)
  let day := days % period - daysBefore year
  let month := (5 * day + 2) / 153
  let inNextYear := 10 ≤ month
  (year + 400 * (days / period) + (if inNextYear then 1 else 0),
    if inNextYear then month - 9 else month + 3,
    day - daysBeforeMonth month + 1)

def timeOfDay (m : Moment) : Text :=
  let seconds := m.millis / 1000
  Text.padded 2 (seconds / 3600 % 24) ++ ":" ++ Text.padded 2 (seconds / 60 % 60) ++ ":" ++
    Text.padded 2 (seconds % 60)

def stamp (m : Moment) : Text :=
  let (year, month, day) := m.date
  Text.padded 4 year ++ "-" ++ Text.padded 2 month ++ "-" ++ Text.padded 2 day ++ "T" ++
    m.timeOfDay ++ "." ++ Text.padded 3 (m.millis % 1000) ++ "Z"

end Moment

end RouteCatalog
