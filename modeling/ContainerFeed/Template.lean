import ContainerFeed.Json.Reader
import ContainerFeed.Template.Region

/-!
# Metric templates

A template is a document in the shape of the served container document. Its samples list holds
exactly one element, the template of a sample, whose interfaces list holds exactly one element,
the template of an interface. Both are cut out of their parents, and the three regions that
remain are compiled each for itself.
-/

namespace ContainerFeed

/-- The three compiled regions of a template. -/
structure Template where
  container : Template.Region
  sample : Template.Region
  interface : Template.Region

namespace Template

/-- Where a container document holds its samples. -/
def samplesPath : String :=
  "/stats"

/-- Where a sample holds its interfaces. -/
def interfacesPath : String :=
  "/network/interfaces"

/-- Cuts the only element out of the list at a path and leaves a node in the list's place. Returns
the element and the rest of the document. -/
def cutElement (document : Node) (path : String) (replacement : Node) :
    Except ShapeFault (Node × Node) :=
  match document.replace path replacement with
  | .error _ => .error (.noList path)
  | .ok (.list [element], rest) => .ok (element, rest)
  | .ok (.list items, _) => .error (.notOneElement path items.length)
  | .ok _ => .error (.notAList path)

/-- The documents of the three regions: container, sample and interface. -/
def cutRegions (document : Node) : Except ShapeFault (Node × Node × Node) := do
  if !document.isMap then .error .rootNotAMap
  let (sample, container) ← cutElement document samplesPath (.list [])
  let (interface, sample) ← cutElement sample interfacesPath .emptyMap
  return (container, sample, interface)

/-- Compiles the document of a template. -/
def ofDocument (document : Node) : Except Fault Template := do
  let (container, sample, interface) ← (cutRegions document).mapError Fault.shape
  let container ← Region.compile container
  let sample ← Region.compile sample
  let interface ← Region.compile interface
  return ⟨container, sample, interface⟩

/-- Compiles the text of a template. -/
def compile (source : String) : Except Fault Template :=
  match Node.parse? source with
  | none => .error .notADocument
  | some document => ofDocument document

end Template

end ContainerFeed
