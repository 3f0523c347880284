import ContainerFeed.Ingest.InPlace
import ContainerFeed.Publisher.Fault

/-!
# The publisher

A publisher is set up once, by the first call that needs it: options are resolved, the template
is compiled, and then the exposure server is started. A setup that fails leaves the publisher as
it was, and the next call tries again. Once set up, the publisher keeps its settings; the
template can be exchanged as a whole.

What a call finds around it, files and ports, is given to the call. A call that fails after a
successful setup keeps the setup and changes nothing else.
-/

namespace ContainerFeed

/-- What a publisher finds around it. -/
structure Surroundings where
  /-- The content of a file that can be read as text. -/
  fileText : String → Option String
  /-- Why the exposure server does not start on a port, if it does not. -/
  refusal? : UInt16 → Option String

/-- The outcome of a setup. -/
structure Runtime where
  settings : Settings
  template : Template

/-- The state of a publisher. -/
structure Publisher where
  store : Store
  runtime : Option Runtime
  /-- The ports on which the exposure server has been started. -/
  exposedPorts : List UInt16

namespace Publisher

/-- A publisher that is not set up and tracks nothing. -/
def new : Publisher :=
  ⟨.empty, none, []⟩

/-- Whether a setup has succeeded. -/
def isStarted (publisher : Publisher) : Bool :=
  publisher.runtime.isSome

/-- A setup from options. -/
def prepare (around : Surroundings) (options : Options) : Except SetupFault Runtime := do
  let settings := Settings.resolve options
  let template ←
    (settings.templateSource.compile around.fileText).mapError SetupFault.template
  match around.refusal? settings.serverPort with
  | some reason => .error (.exposure settings.serverPort reason)
  | none => return ⟨settings, template⟩

/-- The publisher with a setup: its own, or else a new one. -/
def ensureStarted (publisher : Publisher) (around : Surroundings) (options : Options) :
    Except SetupFault (Runtime × Publisher) :=
  match publisher.runtime with
  | some runtime => .ok (runtime, publisher)
  | none => do
    let runtime ← prepare around options
    return (runtime, { publisher with
      runtime := some runtime
      exposedPorts := publisher.exposedPorts ++ [runtime.settings.serverPort] })

/-- Sets the publisher up before the first batch. -/
def start (publisher : Publisher) (around : Surroundings) (options : Options) :
    Except SetupFault Settings × Publisher :=
  match publisher.ensureStarted around options with
  | .error fault => (.error fault, publisher)
  | .ok (runtime, started) => (.ok runtime.settings, started)

/-- Takes in a batch of measurements that has been decoded. The store is changed in place. -/
def takeIn (publisher : Publisher) (runtime : Runtime) (batch : List Measurement) :
    Except PublishFault IngestReport × Publisher :=
  match (Store.ingestInPlace runtime.template runtime.settings batch).on publisher.store with
  | (outcome, store) => (outcome.mapError PublishFault.ingest, { publisher with store })

/-- Decodes a batch and takes it in, after a setup if there has been none. -/
def publish (publisher : Publisher) (around : Surroundings) (contentType : String)
    (content : List UInt8) (options : Options) :
    Except PublishFault IngestReport × Publisher :=
  match publisher.ensureStarted around options with
  | .error fault => (.error (.setup fault), publisher)
  | .ok (runtime, started) => match Batch.decode contentType content with
    | .error fault => (.error (.batch fault), started)
    | .ok batch => started.takeIn runtime batch

/-- Exchanges the template, all three regions at once. -/
def reload (publisher : Publisher) (around : Surroundings) (source : Template.Source) :
    Except SetupFault Unit × Publisher :=
  match publisher.runtime with
  | none => (.error .notStarted, publisher)
  | some runtime => match source.compile around.fileText with
    | .error fault => (.error (.template fault), publisher)
    | .ok template =>
      (.ok (), { publisher with runtime := some { runtime with template } })

end Publisher

end ContainerFeed
