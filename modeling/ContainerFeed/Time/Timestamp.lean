import ContainerFeed.Time.Calendar
import ContainerFeed.Time.Span

/-!
# Timestamps

A timestamp is a local date and time of day with its offset from universal time. The instant it
denotes is a whole number of nanoseconds; arithmetic on timestamps is done on that number, and
fails where the local date of the result cannot be represented.
-/

namespace ContainerFeed

/-- A time of day. -/
structure TimeOfDay where
  hour : Nat
  minute : Nat
  second : Nat
  nanosecond : Nat
  hour_lt : hour < 24
  minute_lt : minute < 60
  second_lt : second < 60
  nanosecond_lt : nanosecond < 1000000000
  deriving DecidableEq

namespace TimeOfDay

/-- The time of day with the given parts, if there is one. -/
def make? (hour minute second nanosecond : Nat) : Option TimeOfDay :=
  if h : hour < 24 ∧ minute < 60 ∧ second < 60 ∧ nanosecond < 1000000000 then
    some ⟨hour, minute, second, nanosecond, h.1, h.2.1, h.2.2.1, h.2.2.2⟩
  else none

/-- The seconds since midnight. -/
def seconds (time : TimeOfDay) : Nat :=
  time.hour * 3600 + time.minute * 60 + time.second

/-- The nanoseconds since midnight. -/
def nanoseconds (time : TimeOfDay) : Nat :=
  time.seconds * 1000000000 + time.nanosecond

/-- The time of day at some nanoseconds after midnight; whole days are left out. -/
def ofNanoseconds (n : Nat) : TimeOfDay where
  hour := n / 3600000000000 % 24
  minute := n / 60000000000 % 60
  second := n / 1000000000 % 60
  nanosecond := n % 1000000000
  hour_lt := Nat.mod_lt _ (by decide)
  minute_lt := Nat.mod_lt _ (by decide)
  second_lt := Nat.mod_lt _ (by decide)
  nanosecond_lt := Nat.mod_lt _ (by decide)

/-- The time of day without the part of a second. -/
def wholeSecond (time : TimeOfDay) : TimeOfDay :=
  { time with nanosecond := 0, nanosecond_lt := by decide }

end TimeOfDay

/-- The offset of local time from universal time. Its parts do not differ in sign. -/
structure UtcOffset where
  hours : Int
  minutes : Int
  seconds : Int
  hours_range : -25 ≤ hours ∧ hours ≤ 25
  minutes_range : -59 ≤ minutes ∧ minutes ≤ 59
  seconds_range : -59 ≤ seconds ∧ seconds ≤ 59
  same_sign : (0 ≤ hours ∧ 0 ≤ minutes ∧ 0 ≤ seconds) ∨
    (hours ≤ 0 ∧ minutes ≤ 0 ∧ seconds ≤ 0)
  deriving DecidableEq

namespace UtcOffset

/-- No offset. -/
def utc : UtcOffset :=
  ⟨0, 0, 0, by decide, by decide, by decide, by decide⟩

/-- A smaller part with its sign changed where it differs from the sign of a larger one. -/
def follow (larger smaller : Int) : Int :=
  if (0 < larger ∧ smaller < 0) ∨ (larger < 0 ∧ 0 < smaller) then -smaller else smaller

/-- The offset with the given parts, if they are in range. Minutes take the sign of the hours, and
seconds that of the hours or, where these are zero, of the minutes. -/
def make? (hours minutes seconds : Int) : Option UtcOffset :=
  let signedMinutes := follow hours minutes
  let signedSeconds := follow (if hours = 0 then minutes else hours) seconds
  if h : (-25 ≤ hours ∧ hours ≤ 25) ∧ (-59 ≤ signedMinutes ∧ signedMinutes ≤ 59) ∧
      (-59 ≤ signedSeconds ∧ signedSeconds ≤ 59) then
    some ⟨hours, signedMinutes, signedSeconds, h.1, h.2.1, h.2.2, by
      simp only [signedMinutes, signedSeconds, follow]
      split <;> split <;> omega⟩
  else none

/-- The offset in seconds. -/
def totalSeconds (offset : UtcOffset) : Int :=
  offset.hours * 3600 + offset.minutes * 60 + offset.seconds

end UtcOffset

/-- A local date and time with its offset. -/
structure Timestamp where
  date : Date
  time : TimeOfDay
  offset : UtcOffset
  deriving DecidableEq

namespace Timestamp

/-- How many nanoseconds a day has. -/
def dayLength : Int :=
  86400000000000

/-- The local time in nanoseconds since the beginning of year 1. -/
def localNanoseconds (t : Timestamp) : Int :=
  t.date.dayNumber * dayLength + t.time.nanoseconds

/-- The instant in nanoseconds since the beginning of year 1 in universal time. -/
def instant (t : Timestamp) : Int :=
  t.localNanoseconds - t.offset.totalSeconds * Span.second

/-- The timestamp with a local time and an offset, if its date can be represented. -/
def ofLocalNanoseconds? (n : Int) (offset : UtcOffset) : Option Timestamp :=
  (Date.ofDayNumber? (n / dayLength)).map fun date =>
    ⟨date, TimeOfDay.ofNanoseconds (n % dayLength).toNat, offset⟩

/-- The timestamp a span later, in the same offset. -/
def add? (t : Timestamp) (span : Span) : Option Timestamp :=
  ofLocalNanoseconds? (t.localNanoseconds + span.nanoseconds) t.offset

/-- The timestamp a span earlier, in the same offset. -/
def sub? (t : Timestamp) (span : Span) : Option Timestamp :=
  t.add? span.neg

/-- The same instant in universal time. -/
def toUtc? (t : Timestamp) : Option Timestamp :=
  ofLocalNanoseconds? t.instant .utc

/-- The timestamp without the part of a second. -/
def wholeSecond (t : Timestamp) : Timestamp :=
  { t with time := t.time.wholeSecond }

/-- A number with leading zeros up to a width. -/
def padded (width n : Nat) : List Char :=
  let digits := Nat.toDigits 10 n
  List.replicate (width - digits.length) '0' ++ digits

/-- The text of a time in universal time, to the second. Years before 0 have none. -/
def stamp? (t : Timestamp) : Option String :=
  if t.date.year < 0 then none
  else
    let (month, day) := t.date.month
    some (String.ofList (
      padded 4 t.date.year.toNat ++ '-' :: padded 2 month ++ '-' :: padded 2 day ++
      'T' :: padded 2 t.time.hour ++ ':' :: padded 2 t.time.minute ++
      ':' :: padded 2 t.time.second ++ ['Z']))

end Timestamp

end ContainerFeed
