import ContainerFeed.Json.Writer
import ContainerFeed.Template

/-!
# The builtin template

The template that is used unless a file is named. It is written down as a document, so its text
is the document's own text.
-/

namespace ContainerFeed.Template.Builtin

/-- A leaf with a small whole number. -/
def number (value : Int64) : Node :=
  .leaf (.int value)

/-- A leaf with a truth value. -/
def flag (value : Bool) : Node :=
  .leaf (.bool value)

/-- The greatest unsigned number, which stands for no limit. -/
def unlimited : Node :=
  .leaf (.uint 18446744073709551615)

/-- A full value spec. -/
def spec (source : String) (default : Scalar) : Node :=
  .map [
    (Spec.marker, .leaf (.bool true)),
    ("default", .leaf default),
    ("src", .text source)]

/-- The template of an interface. -/
def interface : Node :=
  .map [
    ("name", .text ""),
    ("rx_bytes", .text "__tmpl:src=/rx_bytes;default=0"),
    ("rx_dropped", .text "__tmpl:src=/rx_dropped;default=0"),
    ("rx_errors", .text "__tmpl:src=/rx_errors;default=0"),
    ("rx_packets", .text "__tmpl:src=/rx_packets;default=0"),
    ("tx_bytes", .text "__tmpl:src=/tx_bytes;default=0"),
    ("tx_dropped", .text "__tmpl:src=/tx_dropped;default=0"),
    ("tx_errors", .text "__tmpl:src=/tx_errors;default=0"),
    ("tx_packets", .text "__tmpl:src=/tx_packets;default=0")]

/-- The template of a sample. -/
def sample : Node :=
  .map [
    ("cpu", .map [
      ("load_average", number 0),
      ("usage", .map [
        ("per_cpu_usage", .list []),
        ("system", .text "__tmpl:src=/cpu_stats/cpu_usage/kernel_mode;default=0"),
        ("total", spec "/cpu_stats/cpu_usage/total_usage" (.int 0)),
        ("user", .text "__tmpl:src=/cpu_stats/cpu_usage/user_mode;default=0")])]),
    ("filesystem", .list []),
    ("memory", .map [
      ("cache", .text "__tmpl:src=/memory_stats/cache;default=0"),
      ("container_data", .map [
        ("pgfault", .text "__tmpl:src=/memory_stats/stats/pgfault;default=0"),
        ("pgmajfault", .text "__tmpl:src=/memory_stats/stats/pgmajfault;default=0")]),
      ("failcnt", .text "__tmpl:src=/memory_stats/usage/failcnt;type=int;default=0"),
      ("rss", .text "__tmpl:src=/memory_stats/stats/rss;default=0"),
      ("usage", spec "/memory_stats/usage/usage" (.int 0)),
      ("working_set", spec "/memory_stats/usage/usage" (.int 0))]),
    ("network", .map [
      ("interfaces", .list [interface])]),
    ("task_stats", .map [
      ("nr_io_wait", number 0),
      ("nr_running", number 0),
      ("nr_sleeping", number 0),
      ("nr_stopped", number 0),
      ("nr_uninterruptible", number 0)]),
    ("timestamp", .text "")]

/-- The whole template. -/
def document : Node :=
  .map [
    ("aliases", .list []),
    ("id", .text ""),
    ("name", .text ""),
    ("namespace", .text "docker"),
    ("spec", .map [
      ("cpu", .map [
        ("limit", number 1024),
        ("mask", .text ""),
        ("max_limit", number 0)]),
      ("creation_time", spec "/spec/creation_time" (.text "0001-01-01T00:00:00Z")),
      ("has_cpu", flag true),
      ("has_custom_metrics", flag false),
      ("has_diskio", flag false),
      ("has_filesystem", flag true),
      ("has_memory", flag true),
      ("has_network", flag true),
      ("image", .text "__tmpl:src=/spec/image_name;type=string;default="),
      ("labels", .emptyMap),
      ("memory", .map [
        ("limit", unlimited),
        ("swap_limit", unlimited)]),
      ("status", .text "__tmpl:src=/spec/status;type=string;default=unknown")]),
    ("stats", .list [sample])]

/-- The text of the template. -/
def source : String :=
  document.render

end ContainerFeed.Template.Builtin
