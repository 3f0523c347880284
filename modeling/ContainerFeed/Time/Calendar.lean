/-!
# The calendar

Dates are a year and a day of that year, in the Gregorian calendar extended in both directions.
Days are counted from the first day of year 1, so that arithmetic on dates is arithmetic on whole
numbers. Only the years from -9999 to 9999 can be represented.
-/

namespace ContainerFeed

/-- Every fourth year is a leap year, but of the full centuries only every fourth. -/
def isLeapYear (year : Int) : Bool :=
  year % 4 == 0 && (year % 100 != 0 || year % 400 == 0)

/-- The number of days of a year. -/
def daysInYear (year : Int) : Nat :=
  if isLeapYear year then 366 else 365

/-- The number of days from the first day of year 1 to the first day of a year. -/
def daysBeforeYear (year : Int) : Int :=
  365 * (year - 1) + (year - 1) / 4 - (year - 1) / 100 + (year - 1) / 400

/-- A representable date. -/
structure Date where
  year : Int
  ordinal : Nat
  year_range : -9999 ≤ year ∧ year ≤ 9999
  ordinal_range : 1 ≤ ordinal ∧ ordinal ≤ daysInYear year
  deriving DecidableEq

namespace Date

/-- The date with a year and a day of the year, if there is one. -/
def make? (year : Int) (ordinal : Nat) : Option Date :=
  if h : (-9999 ≤ year ∧ year ≤ 9999) ∧ 1 ≤ ordinal ∧ ordinal ≤ daysInYear year then
    some ⟨year, ordinal, h.1, h.2⟩
  else none

/-- The number of days from the first day of year 1 to a date. -/
def dayNumber (date : Date) : Int :=
  daysBeforeYear date.year + date.ordinal - 1

/-- The year that a day lies in. The mean length of a year gives it up to one year. -/
def yearOfDay (day : Int) : Int :=
  let guess := day * 400 / 146097 + 1
  if day < daysBeforeYear guess then guess - 1
  else if daysBeforeYear (guess + 1) ≤ day then guess + 1
  else guess

/-- The date of a day, if its year can be represented. -/
def ofDayNumber? (day : Int) : Option Date :=
  let year := yearOfDay day
  make? year (day - daysBeforeYear year + 1).toNat

/-- The lengths of the months of a year. -/
def monthLengths (year : Int) : List Nat :=
  [31, if isLeapYear year then 29 else 28, 31, 30, 31, 30, 31, 31, 30, 31, 30, 31]

/-- The number of the month, counted from `month`, and the day of it that a day of the remaining
year falls on. -/
def monthAndDay (month day : Nat) : List Nat → Nat × Nat
  | [] => (month, day)
  | length :: rest => if day ≤ length then (month, day) else
      monthAndDay (month + 1) (day - length) rest

/-- The month of a date, from 1 to 12, and the day of the month. -/
def month (date : Date) : Nat × Nat :=
  monthAndDay 1 date.ordinal (monthLengths date.year)

end Date

end ContainerFeed
