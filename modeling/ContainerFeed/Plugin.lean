import ContainerFeed.Batch.Decoding
import ContainerFeed.Settings

/-!
# What the host is told

Before it sends batches the host asks for the descriptor of the plugin and for its policy: the
options it takes, their kinds and their defaults.
-/

namespace ContainerFeed

namespace OptionValue

/-- The value in a document. -/
def toNode : OptionValue → Node
  | .bool value => .leaf (.bool value)
  | .int value => .leaf (.int value)
  | .float value => .leaf (.float value)
  | .text value => .text value

end OptionValue

namespace Plugin

/-- The kinds of values that an option takes. -/
inductive OptionKind where
  | integer
  | string
  deriving DecidableEq

/-- The name of a kind. -/
def OptionKind.name : OptionKind → String
  | .integer => "integer"
  | .string => "string"

/-- A declared option. None is required. -/
structure OptionRule where
  key : String
  kind : OptionKind
  default : OptionValue

/-- The declared options. -/
def policy : List OptionRule :=
  [⟨Settings.serverPortName, .integer, .int Settings.defaultServerPort⟩,
    ⟨Settings.statsDepthName, .integer, .int Settings.defaultStatsDepth⟩,
    ⟨Settings.statsSpanName, .string, .text Settings.defaultStatsSpan⟩,
    ⟨Settings.templateName, .string, .text Template.Source.builtinName⟩,
    ⟨Settings.timestampDeltaName, .string, .text Settings.defaultTimestampDelta⟩,
    ⟨Settings.metricPrefixName, .string, .text Settings.defaultMetricPrefix⟩]

/-- The rule as a document. -/
def OptionRule.toNode (rule : OptionRule) : Node :=
  .map (Keyed.ofList [("key", .text rule.key), ("kind", .text rule.kind.name),
    ("required", .leaf (.bool false)), ("default", rule.default.toNode)])

/-- The policy as a document. -/
def policyNode : Node :=
  .list (policy.map OptionRule.toNode)

/-- The fields that describe the plugin. -/
def descriptor : List (String × Node) :=
  Keyed.ofList [("name", .text "heapster"), ("version", .leaf (.int 4)),
    ("plugin_type", .text "publisher"),
    ("accepted_content_types", .list [.text Batch.contentType]),
    ("returned_content_types", .list [.text Batch.contentType]),
    ("concurrency_count", .leaf (.int 999))]

/-- The descriptor together with the policy. -/
def info : Node :=
  .map (Keyed.insert "config_policy" policyNode descriptor)

end Plugin

end ContainerFeed
