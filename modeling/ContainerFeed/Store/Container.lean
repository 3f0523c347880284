import ContainerFeed.Store.History
import ContainerFeed.Template

/-!
# Tracked containers

A tracked container has a document, written once when the container is discovered, and a history
of samples. Its served document is the document with the samples in their place.
-/

namespace ContainerFeed

/-- A container with its document and its history. -/
structure Container where
  key : String
  id : String
  document : Node
  history : List Sample

namespace Container

/-- Where a container document holds the identifier. -/
def idPath : String :=
  "/id"

/-- Where a container document holds the key, under which consumers know the container. -/
def namePath : String :=
  "/name"

/-- A new container. Its document is the skeleton with identifier and name filled in. -/
def discover (key id : String) (skeleton : Node) : Except PathError Container := do
  let document ← skeleton.set idPath (.text id)
  let document ← document.set namePath (.text key)
  return ⟨key, id, document, []⟩

/-- The document as it is served, with the samples from oldest to newest. -/
def render (container : Container) : Except PathError Node :=
  container.document.set Template.samplesPath (.list (container.history.map Sample.document))

/-- The container after a sample has arrived. -/
def push (container : Container) (policy : Retention) (sample : Sample) : Container :=
  { container with history := policy.push container.history sample }

end Container

end ContainerFeed
