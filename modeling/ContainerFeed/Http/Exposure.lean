import ContainerFeed.Http.Message
import ContainerFeed.Ingest.Container
import ContainerFeed.Store

/-!
# The exposure surface

Consumers read the documents of the tracked containers here. A container is asked for by its
name, which is looked up under the key of the container with that name.
-/

namespace ContainerFeed.Http.Exposure

/-- The routes of the surface. -/
inductive Route where
  | health
  | stats
  | containers
  | container (piece : List Char)

/-- The route of a path, if there is one. -/
def route? (request : Request) : Option Route :=
  match request.pieces with
  | [[], piece] =>
    if piece = "health".toList then some .health
    else if piece = "stats".toList then some .stats
    else if piece = "containers".toList then some .containers
    else none
  | [[], piece, name] =>
    if piece = "containers".toList ∧ name ≠ [] then some (.container name) else none
  | _ => none

/-- The counters as a document. -/
def countersNode (counters : Counters) : Node :=
  let number (value : UInt64) : Node := .leaf (.uint value)
  .map (Keyed.ofList [
    ("metrics_rx_total", number counters.metricsTotal),
    ("metrics_rx_recently", number counters.metricsRecently),
    ("containers_rx_recently", number counters.containersRecently),
    ("containers_rx_max", number counters.containersMax),
    ("stats_rx_recently", number counters.samplesRecently),
    ("stats_rx_max", number counters.samplesMax),
    ("stats_rx_total", number counters.samplesTotal)])

/-- How many containers are tracked, and what has arrived. -/
def statsNode (store : Store) : Node :=
  .map (Keyed.ofList [
    ("containers_tracked", .leaf (.uint (UInt64.ofNat store.size))),
    ("core_stats", countersNode store.counters)])

/-- The documents of all containers. -/
def containers (store : Store) : Response :=
  match store.snapshot with
  | .ok documents => .ok (.map documents)
  | .error _ => .empty 500

/-- The key that the container with a name is looked up under: the path of the name below the root,
but for the name of the host itself. -/
def lookupKey (name : String) : String :=
  if name = ContainerRef.hostName then Path.root else Path.join Path.root name

/-- The document of the container with a name. -/
def container (store : Store) (name : String) : Response :=
  match store.document? (lookupKey name) with
  | .ok (some document) => .ok document
  | .ok none => .notFound
  | .error _ => .empty 500

/-- The response of a route. -/
def answer (store : Store) : Route → Response
  | .health => .healthy
  | .stats => .ok (statsNode store)
  | .containers => containers store
  | .container piece => match percentDecoded? piece with
    | some name => container store name
    | none => ⟨400, .text "Invalid URL: Invalid UTF-8 in `id`"⟩

/-- The response to a request. -/
def respond (store : Store) (request : Request) : Response :=
  match route? request with
  | some route => request.reading (answer store route)
  | none => .notFound

end ContainerFeed.Http.Exposure
