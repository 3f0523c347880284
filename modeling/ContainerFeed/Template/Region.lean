import ContainerFeed.Node.Address
import ContainerFeed.Node.Visit
import ContainerFeed.Template.Table

/-!
# Regions of a template

A region is the template of one nesting level: a container, a sample or an interface. Compiling
it collects its value specs, in the order in which its nodes are visited, and puts their defaults
in their places. What is left is the skeleton that every new instance starts from.
-/

namespace ContainerFeed.Template

/-- The skeleton of a nesting level and the table of its specs. -/
structure Region where
  skeleton : Node
  mapping : Table

/-- The specs of a region from first to last. Nothing below a full spec is looked at, and the
first spec that cannot be read ends the search. -/
def specsOf (document : Node) : Except Fault (List Spec) :=
  (document.visits fun _ node => Spec.isFull node).foldlM
    (fun found visit => match Spec.ofNode visit.1 visit.2 with
      | .ok (some spec) => .ok (found ++ [spec])
      | .ok none => .ok found
      | .error fault => .error (.spec visit.1 fault)) []

/-- Puts the default of a spec in its place, or removes the place when there is none. -/
def applyDefault (document : Node) (spec : Spec) : Except PathError Node :=
  match spec.default with
  | some value => document.set spec.target (.leaf value)
  | none => (document.remove spec.target).map Prod.snd

/-- Puts the defaults of all specs in their places, one after another. -/
def applyDefaults (document : Node) (specs : List Spec) : Except PathError Node :=
  specs.foldlM applyDefault document

namespace Region

/-- Compiles the document of a region. -/
def compile (document : Node) : Except Fault Region := do
  let specs ← specsOf document
  let mapping := Table.ofSpecs specs
  let skeleton ← (applyDefaults document mapping.specs).mapError Fault.path
  return ⟨skeleton, mapping⟩

/-- Writes a value at the target of every spec of a list. -/
def writeTargets (document : Node) (specs : List Spec) (value : Scalar) : Except PathError Node :=
  specs.foldlM (fun document spec => document.set spec.target (.leaf value)) document

end Region

end ContainerFeed.Template
