import ContainerFeed.Batch.Encoding

/-!
# Building batches

A builder collects measurements that share its current timestamp. Its namespaces have the layout
of the container collector: the metric prefix, the container, and the path of the metric.
-/

namespace ContainerFeed.Testkit

/-- The metric prefix of the collector. -/
def collectorPrefix : String :=
  "/intel/docker"

/-- The namespace of a container's metric. -/
def containerNamespace (container path : String) : Namespace :=
  .parse (collectorPrefix ++ "/" ++ container ++ "/" ++
    String.ofList (path.toList.dropWhile (· == '/')))

/-- The namespace of a counter of a container's interface. -/
def interfaceNamespace (container interface counter : String) : Namespace :=
  containerNamespace container ("network/" ++ interface ++ "/" ++ counter)

/-- A batch under construction. -/
structure BatchBuilder where
  timestamp : Timestamp
  measurements : List Measurement

namespace BatchBuilder

/-- No measurements yet. -/
def start (timestamp : Timestamp) : BatchBuilder :=
  ⟨timestamp, []⟩

/-- Gives later measurements another timestamp. -/
def moveTo (builder : BatchBuilder) (timestamp : Timestamp) : BatchBuilder :=
  { builder with timestamp }

/-- Gives later measurements a timestamp a span later, if its date can be represented. -/
def advance? (builder : BatchBuilder) (span : Span) : Option BatchBuilder :=
  (builder.timestamp.add? span).map builder.moveTo

/-- Adds a measurement. -/
def add (builder : BatchBuilder) (ns : Namespace) (value : MetricValue) : BatchBuilder :=
  { builder with measurements := builder.measurements ++ [⟨ns, value, builder.timestamp⟩] }

/-- The octets of the batch. -/
def octets (builder : BatchBuilder) : List UInt8 :=
  Batch.encode builder.measurements

end BatchBuilder

end ContainerFeed.Testkit
