import ContainerFeed.Options
import ContainerFeed.Template.Source
import ContainerFeed.Time.SpanText

/-!
# Settings

Settings are resolved from options once, before the first batch. Each setting looks at its own
option only, and an option that cannot be used counts as absent. A depth of zero, or a span that
is not positive, switches that bound on the history off.
-/

namespace ContainerFeed

/-- The resolved settings of a publisher. -/
structure Settings where
  serverPort : UInt16
  statsDepth : Nat
  statsSpan : Span
  templateSource : Template.Source
  timestampDelta : Span
  metricPrefix : String
  deriving DecidableEq

namespace Settings

/-! ## The names of the options and their defaults -/

/-- The option for the port that containers are served on. -/
def serverPortName : String := "server_port"

/-- The option for how many samples are kept of a container. -/
def statsDepthName : String := "stats_depth"

/-- The option for how long samples are kept. -/
def statsSpanName : String := "stats_span"

/-- The option for the file of the template. -/
def templateName : String := "export_tmpl_file"

/-- The option for how far the times of samples are moved. -/
def timestampDeltaName : String := "timestamp_delta"

/-- The option for the namespace that containers lie below. -/
def metricPrefixName : String := "metric_prefix"

/-- The port without an option for it. -/
def defaultServerPort : Int64 := 8777

/-- The number of samples without an option for it. -/
def defaultStatsDepth : Int64 := 10

/-- The span of samples without an option for it. -/
def defaultStatsSpan : String := "10m"

/-- How far times are moved without an option for it. -/
def defaultTimestampDelta : String := "0"

/-- The namespace of containers without an option for it. -/
def defaultMetricPrefix : String := "/intel/docker"

/-- A port number, or the default port when the number is out of range. -/
def portOf (number : Int64) : UInt16 :=
  if 0 ≤ number.toInt ∧ number.toInt < 65536 then UInt16.ofNat number.toInt.toNat
  else UInt16.ofNat defaultServerPort.toInt.toNat

/-- The span under a name. A text that spells no span gives way to the default. -/
def spanOption (options : Options) (name default : String) : Span :=
  match Span.read? (options.text name default) with
  | some span => span
  | none => (Span.read? default).getD .zero

/-- The settings that options ask for. -/
def resolve (options : Options) : Settings where
  serverPort := portOf (options.int serverPortName defaultServerPort)
  statsDepth := (options.int statsDepthName defaultStatsDepth).toInt.toNat
  statsSpan := spanOption options statsSpanName defaultStatsSpan
  templateSource :=
    Template.Source.ofOption (options.text templateName Template.Source.builtinName)
  timestampDelta := spanOption options timestampDeltaName defaultTimestampDelta
  metricPrefix := options.text metricPrefixName defaultMetricPrefix

end Settings

end ContainerFeed
