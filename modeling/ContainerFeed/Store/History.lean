import ContainerFeed.Node
import ContainerFeed.Time.Timestamp

/-!
# Sample histories

The history of a container lists its samples in the order of their arrival, oldest first. A
retention policy bounds how many samples are kept and how far they reach back from the sample
that arrives; what it drops, it drops from the front.
-/

namespace ContainerFeed

/-- A sample with the time it stands for. Its document is complete. -/
structure Sample where
  timestamp : Timestamp
  document : Node

/-- The bounds on a history. A depth of zero bounds nothing, nor does a span that is not
positive. -/
structure Retention where
  depth : Nat
  span : Span
  deriving DecidableEq

namespace Retention

/-- A history with room for one more sample. A full one loses its oldest sample. -/
def makeRoom (policy : Retention) (history : List Sample) : List Sample :=
  if 0 < policy.depth ∧ policy.depth ≤ history.length then history.drop 1 else history

/-- The earliest time that may stay beside a sample of the given time. There is none when no
span is set, or when the date of the horizon cannot be represented. -/
def horizon? (policy : Retention) (latest : Timestamp) : Option Timestamp :=
  if policy.span.IsPositive then latest.sub? policy.span else none

/-- A history without the samples at its front that lie before a horizon. -/
def dropBefore (horizon : Option Timestamp) (history : List Sample) : List Sample :=
  match horizon with
  | some horizon => history.dropWhile fun sample =>
      decide (sample.timestamp.instant < horizon.instant)
  | none => history

/-- The history after a sample has arrived. -/
def push (policy : Retention) (history : List Sample) (sample : Sample) : List Sample :=
  dropBefore (policy.horizon? sample.timestamp) (policy.makeRoom history) ++ [sample]

end Retention

end ContainerFeed
