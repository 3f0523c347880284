import ContainerFeed.Scalar
import ContainerFeed.Time.Timestamp

/-!
# Measurements

A measurement is a value with a namespace and a timestamp. The namespace is a list of segments;
its display form puts a slash before each of them.
-/

namespace ContainerFeed

/-- The segments that name what was measured. -/
structure Namespace where
  segments : List String
  deriving DecidableEq

namespace Namespace

/-- The namespace that a slash-delimited text spells. Empty pieces do not count. -/
def parse (text : String) : Namespace :=
  ⟨((text.toList.splitOn '/').filter (fun piece => piece ≠ [])).map String.ofList⟩

/-- The namespace as text. -/
def display (ns : Namespace) : String :=
  String.ofList (ns.segments.flatMap fun segment => '/' :: segment.toList)

/-- The segment before the last, which names the interface of a counter. -/
def interfaceName? (ns : Namespace) : Option String :=
  match ns.segments.reverse with
  | _ :: name :: _ => some name
  | _ => none

end Namespace

/-- The value of a measurement. -/
inductive MetricValue where
  | int (value : Int64)
  | uint (value : UInt64)
  | float (value : Binary64)
  | bool (value : Bool)
  | text (value : String)
  deriving DecidableEq

/-- The value as it stands in a document. -/
def MetricValue.scalar : MetricValue → Scalar
  | .int value => .int value
  | .uint value => .uint value
  | .float value => .float value
  | .bool value => .bool value
  | .text value => .text value

/-- A measured value. -/
structure Measurement where
  ns : Namespace
  value : MetricValue
  timestamp : Timestamp
  deriving DecidableEq

end ContainerFeed
