/-!
# Spans of time

A span is a signed number of nanoseconds. Its seconds and the nanoseconds beyond them have the
same sign.
-/

namespace ContainerFeed

/-- A signed length of time. -/
structure Span where
  nanoseconds : Int
  deriving DecidableEq

namespace Span

/-- How many nanoseconds a second has. -/
def second : Int :=
  1000000000

/-- The span of no length. -/
def zero : Span :=
  ⟨0⟩

/-- The span of some seconds and nanoseconds. -/
def ofParts (seconds nanoseconds : Int) : Span :=
  ⟨seconds * second + nanoseconds⟩

/-- The span in the other direction. -/
def neg (span : Span) : Span :=
  ⟨-span.nanoseconds⟩

/-- The whole seconds of a span, counted towards zero. -/
def seconds (span : Span) : Int :=
  span.nanoseconds.tdiv second

/-- The nanoseconds of a span beyond its whole seconds. -/
def subseconds (span : Span) : Int :=
  span.nanoseconds.tmod second

/-- The span leads to a later time. -/
def IsPositive (span : Span) : Prop :=
  0 < span.nanoseconds

instance (span : Span) : Decidable span.IsPositive :=
  inferInstanceAs (Decidable (0 < span.nanoseconds))

end Span

end ContainerFeed
