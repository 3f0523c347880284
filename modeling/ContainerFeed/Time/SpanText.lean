import ContainerFeed.Text.Blank
import ContainerFeed.Text.Numeral
import ContainerFeed.Time.Span

/-!
# Spans in words

A span is written as groups of a number and a unit, such as `1h 30m`. The reader is a machine that
takes one character at a time. All of its numbers have to fit 64 bits, and a fraction has to come
out exact: in nanoseconds for units up to the minute, in seconds for longer ones.
-/

namespace ContainerFeed.Span

/-- A unit is a number of nanoseconds or a number of seconds. -/
inductive UnitLength where
  | nanoseconds (count : Nat)
  | seconds (count : Nat)
  deriving DecidableEq

/-- A unit: what a whole one counts, and what a fraction of one is measured in. The nanosecond has
no fractions. -/
structure SpanUnit where
  whole : UnitLength
  fraction : Option UnitLength
  deriving DecidableEq

/-- A unit that is a number of seconds, fractions included. -/
def longUnit (count : Nat) : SpanUnit :=
  ⟨.seconds count, some (.seconds count)⟩

/-- The unit with a name. -/
def unit? (name : String) : Option SpanUnit :=
  if name ∈ ["nanos", "nsec", "ns"] then some ⟨.nanoseconds 1, none⟩
  else if name ∈ ["usec", "us", "µs"] then
    some ⟨.nanoseconds 1000, some (.nanoseconds 1000)⟩
  else if name ∈ ["millis", "msec", "ms"] then
    some ⟨.nanoseconds 1000000, some (.nanoseconds 1000000)⟩
  else if name ∈ ["seconds", "second", "secs", "sec", "s"] then
    some ⟨.seconds 1, some (.nanoseconds 1000000000)⟩
  else if name ∈ ["minutes", "minute", "min", "mins", "m"] then
    some ⟨.seconds 60, some (.nanoseconds 60000000000)⟩
  else if name ∈ ["hours", "hour", "hr", "hrs", "h"] then some (longUnit 3600)
  else if name ∈ ["days", "day", "d"] then some (longUnit 86400)
  else if name ∈ ["weeks", "week", "wk", "wks", "w"] then some (longUnit 604800)
  else if name ∈ ["months", "month", "M"] then some (longUnit 2630016)
  else if name ∈ ["years", "year", "yr", "yrs", "y"] then some (longUnit 31557600)
  else none

/-- A length of time as it is added up. -/
structure Sum where
  seconds : Nat
  nanoseconds : Nat
  deriving DecidableEq

/-- A number that fits 64 bits. -/
def fit? (n : Nat) : Option Nat :=
  if n < twoTo 64 then some n else none

/-- Adds seconds and nanoseconds, carrying full seconds over. -/
def Sum.add? (sum : Sum) (seconds nanoseconds : Nat) : Option Sum :=
  (fit? (sum.nanoseconds + nanoseconds)).bind fun nanos =>
  (fit? (seconds + nanos / 1000000000)).bind fun secs =>
  (fit? (sum.seconds + secs)).map fun total => ⟨total, nanos % 1000000000⟩

/-- Adds some units divided by a number, which must divide evenly. -/
def Sum.addUnits? (sum : Sum) (length : UnitLength) (count divisor : Nat) : Option Sum :=
  match length with
  | .nanoseconds each => (fit? (count * each)).bind fun product =>
      if product % divisor = 0 then sum.add? 0 (product / divisor) else none
  | .seconds each => (fit? (count * each)).bind fun product =>
      if product % divisor = 0 then sum.add? (product / divisor) 0 else none

/-- The part of a group after the point: its digits as a number, over a power of ten. -/
structure Fraction where
  numerator : Nat
  denominator : Nat
  deriving DecidableEq

/-- Adds a group: a number, a fraction if there is one, and the name of a unit. -/
def Sum.addGroup? (sum : Sum) (number : Nat) (fraction : Option Fraction) (name : String) :
    Option Sum :=
  (unit? name).bind fun u =>
  (sum.addUnits? u.whole number 1).bind fun sum =>
  match fraction, u.fraction with
  | none, _ => some sum
  | some _, none => none
  | some part, some length => sum.addUnits? length part.numerator part.denominator

/-- Where the reader stands. -/
inductive Reading where
  /-- Before a group; there is no sum yet before the first one. -/
  | before (sum : Option Sum)
  | whole (sum : Sum) (number : Nat)
  | fraction (sum : Sum) (number : Nat) (part : Fraction)
  /-- Inside the name of a unit; its letters stand in reverse order. -/
  | name (sum : Sum) (number : Nat) (part : Option Fraction) (letters : List Char)
  deriving DecidableEq

/-- A letter of a unit's name. -/
def isUnitLetter (c : Char) : Bool :=
  c.isAlpha || c == 'µ'

/-- The sum after a group whose name is complete. -/
def finishGroup? (sum : Sum) (number : Nat) (part : Option Fraction) (letters : List Char) :
    Option Sum :=
  sum.addGroup? number part (String.ofList letters.reverse)

/-- Takes one character. -/
def Reading.step (reading : Reading) (c : Char) : Option Reading :=
  match reading with
  | .before sum =>
    if c.isDigit then some (.whole (sum.getD ⟨0, 0⟩) (Text.digitValue c))
    else if Text.isBlank c then some (.before sum)
    else none
  | .whole sum number =>
    if c.isDigit then (fit? (number * 10 + Text.digitValue c)).map (.whole sum)
    else if Text.isBlank c then some (.whole sum number)
    else if isUnitLetter c then some (.name sum number none [c])
    else if c = '.' then some (.fraction sum number ⟨0, 1⟩)
    else none
  | .fraction sum number part =>
    if c.isDigit then
      (fit? (part.denominator * 10)).bind fun denominator =>
      (fit? (part.numerator * 10 + Text.digitValue c)).map fun numerator =>
        .fraction sum number ⟨numerator, denominator⟩
    else if Text.isBlank c then some (.fraction sum number part)
    else if isUnitLetter c ∧ part.denominator ≠ 1 then some (.name sum number (some part) [c])
    else none
  | .name sum number part letters =>
    if c.isDigit then
      (finishGroup? sum number part letters).map fun sum => .whole sum (Text.digitValue c)
    else if Text.isBlank c then
      (finishGroup? sum number part letters).map fun sum => .before (some sum)
    else if isUnitLetter c then some (.name sum number part (c :: letters))
    else none

/-- What was read when the text ends. -/
def Reading.finish : Reading → Option Sum
  | .before sum => sum
  | .name sum number part letters => finishGroup? sum number part letters
  | _ => none

/-- The sum of the groups of a text, of which there is at least one. -/
def readGroups? (text : List Char) : Option Sum :=
  (text.foldlM Reading.step (.before none)).bind Reading.finish

/-- The span of a text without a sign. Its seconds have to fit a signed 64-bit number. -/
def readMagnitude? (text : List Char) : Option Span :=
  if text = ['0'] then some zero
  else (readGroups? text).bind fun sum =>
    if sum.seconds < twoTo 63 then some (ofParts sum.seconds sum.nanoseconds) else none

/-- The span of a text. White space around it does not count, and a minus sign turns it round. -/
def read? (text : String) : Option Span :=
  match Text.trim text.toList with
  | '-' :: rest => (readMagnitude? (Text.trimStart rest)).map neg
  | body => readMagnitude? body

end ContainerFeed.Span
