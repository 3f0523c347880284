import ContainerFeed.Http.Message
import ContainerFeed.Plugin
import ContainerFeed.Publisher

/-!
# The ingest surface

The host sends encoded batches here. A failed setup is answered like any other failure, and the
host process is told to stop.
-/

namespace ContainerFeed.Http.Ingest

/-- The routes of the surface. -/
inductive Route where
  | health
  | plugin
  | publish

/-- The route of a path, if there is one. -/
def route? (request : Request) : Option Route :=
  match request.pieces with
  | [[], piece] =>
    if piece = "health".toList then some .health
    else if piece = "plugin".toList then some .plugin
    else if piece = "publish".toList then some .publish
    else none
  | _ => none

/-- The status that tells the host whose fault it was. -/
def statusOf : PublishFault → Nat
  | .batch (.unsupportedContentType _) => 415
  | .batch (.decode _) => 400
  | _ => 500

/-- A report as a document. -/
def reportNode (report : IngestReport) : Node :=
  let number (value : Nat) : Node := .leaf (.uint (UInt64.ofNat value))
  .map (Keyed.ofList [
    ("metrics_received", number report.metricsReceived),
    ("metrics_routed", number report.metricsRouted),
    ("containers_touched", number report.containersTouched),
    ("samples_committed", number report.samplesCommitted)])

/-- The response to a batch. -/
def answer : Except PublishFault IngestReport → Response
  | .ok report => .ok (.map (Keyed.ofList [("ok", .leaf (.bool true)),
      ("report", reportNode report)]))
  | .error fault => ⟨statusOf fault, .document (.map (Keyed.ofList [
      ("ok", .leaf (.bool false)), ("error", .text fault.message)]))⟩

/-- What becomes of a request: the response, the publisher afterwards, and whether the host
process has to stop. -/
structure Outcome where
  response : Response
  publisher : Publisher
  stop : Bool

/-- A batch on its way into the publisher. -/
def publish (publisher : Publisher) (around : Surroundings) (options : Options)
    (request : Request) : Outcome :=
  let (result, publisher) :=
    publisher.publish around request.declaredType request.body options
  let stop := match result with
    | .error fault => fault.isFatal
    | .ok _ => false
  ⟨answer result, publisher, stop⟩

/-- The outcome of a request. -/
def respond (publisher : Publisher) (around : Surroundings) (options : Options)
    (request : Request) : Outcome :=
  match route? request with
  | none => ⟨.notFound, publisher, false⟩
  | some .health => ⟨request.reading .healthy, publisher, false⟩
  | some .plugin => ⟨request.reading (.ok Plugin.info), publisher, false⟩
  | some .publish =>
    if request.method = "POST" then publish publisher around options request
    else ⟨.methodNotAllowed, publisher, false⟩

end ContainerFeed.Http.Ingest
