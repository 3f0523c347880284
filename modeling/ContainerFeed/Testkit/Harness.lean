import ContainerFeed.Http.Exposure
import ContainerFeed.Json.Writer
import ContainerFeed.Node.Pointer
import ContainerFeed.Publisher
import ContainerFeed.Testkit.BatchBuilder

/-!
# Test harness

A harness holds a publisher with the options of its first batch. It names containers as their
namespaces do and compares fields of served documents with expected values.
-/

namespace ContainerFeed.Testkit

/-- Why a step of a test fails. -/
inductive HarnessFault where
  | publish (fault : PublishFault)
  | path (error : PathError)
  | notTracked (name : String)
  | mismatch (pointer : String) (expected actual : Node)
  | noField (pointer name : String)

/-- What is reported of a fault. -/
def HarnessFault.message : HarnessFault → String
  | .publish fault => fault.message
  | .path error => error.message
  | .notTracked name => s!"container '{name}' is not tracked"
  | .mismatch pointer expected actual =>
    s!"field '{pointer}' mismatch: expected " ++ expected.render ++ ", got " ++ actual.render
  | .noField pointer name => s!"field '{pointer}' not found in container '{name}'"

/-- A publisher under test with its options. -/
structure Harness where
  publisher : Publisher
  options : Options

namespace Harness

/-- A new publisher with some options. -/
def withOptions (options : Options) : Harness :=
  ⟨.new, options⟩

/-- The key under which the container with a name is tracked. -/
def routingKey (name : String) : String :=
  if name = "root" then "/" else "/" ++ name

/-- Publishes encoded content. -/
def publishOctets (harness : Harness) (around : Surroundings) (contentType : String)
    (content : List UInt8) : Except PublishFault IngestReport × Harness :=
  let (result, publisher) :=
    harness.publisher.publish around contentType content harness.options
  (result, { harness with publisher })

/-- Publishes the batch of a builder. -/
def publish (harness : Harness) (around : Surroundings) (builder : BatchBuilder) :
    Except PublishFault IngestReport × Harness :=
  harness.publishOctets around Batch.contentType builder.octets

/-- How many samples a container has; none when it is not tracked. -/
def historyLength (harness : Harness) (name : String) : Nat :=
  ((harness.publisher.store.history? (routingKey name)).getD []).length

/-- The served document of a container. -/
def document (harness : Harness) (name : String) : Except HarnessFault Node :=
  match harness.publisher.store.document? (routingKey name) with
  | .ok (some document) => .ok document.served
  | .ok none => .error (.notTracked name)
  | .error e => .error (.path e)

/-- Checks that a field of a container has a value. -/
def checkField (harness : Harness) (name pointer : String) (expected : Node) :
    Except HarnessFault Unit := do
  let document ← harness.document name
  match document.pointer? pointer with
  | some actual =>
    if actual.servedEqual expected then .ok () else .error (.mismatch pointer expected actual)
  | none => .error (.noField pointer name)

end Harness

end ContainerFeed.Testkit
