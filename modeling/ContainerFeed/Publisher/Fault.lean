import ContainerFeed.Batch.Decoding
import ContainerFeed.Ingest
import ContainerFeed.Template.Fault

/-!
# Faults of a publisher

A call can fail because the publisher cannot be set up, because the batch cannot be decoded, or
because it cannot be taken in. Only a failed setup is fatal: without it there is no template.
-/

namespace ContainerFeed

/-- Why a publisher is not set up. -/
inductive SetupFault where
  | template (fault : Template.Fault)
  /-- The exposure server does not start on the port. -/
  | exposure (port : UInt16) (reason : String)
  | notStarted
  deriving DecidableEq

/-- What is reported of a fault of the setup. -/
def SetupFault.message : SetupFault → String
  | .template fault => "couldn't load metric template: " ++ fault.message
  | .exposure port reason =>
    s!"couldn't start exposure server on port {port.toNat}: " ++ reason
  | .notStarted => "publisher has not been started"

/-- Why a batch has not been published. -/
inductive PublishFault where
  | setup (fault : SetupFault)
  | batch (fault : Batch.Fault)
  | ingest (failure : IngestFailure)
  deriving DecidableEq

namespace PublishFault

/-- What is reported of a fault. -/
def message : PublishFault → String
  | .setup fault => "publisher setup failed: " ++ fault.message
  | .batch fault => fault.message
  | .ingest failure => failure.message

/-- Whether the host has to stop. -/
def isFatal : PublishFault → Bool
  | .setup _ => true
  | _ => false

end PublishFault

end ContainerFeed
