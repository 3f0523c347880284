import ContainerFeed.Ingest.Container
import ContainerFeed.Measurement
import ContainerFeed.Settings
import ContainerFeed.Store.Container

/-!
# Rounds

A round is what one batch does to one container. It starts with the first measurement of the
container whose time can be written as a stamp, takes in every further one, and ends with one
sample. Rounds of different containers do not touch each other.
-/

namespace ContainerFeed

/-- Why a batch cannot be taken in. -/
inductive IngestFailure where
  | path (error : PathError)
  /-- The date of a measurement cannot be represented in universal time. -/
  | dateOverflow
  deriving DecidableEq

/-- What is reported of a failure. -/
def IngestFailure.message : IngestFailure → String
  | .path error => "internal document error: " ++ error.message
  | .dateOverflow => "publish task failed"

/-- The time of a sample: that of its measurement moved by a delta, in universal time and whole
seconds. A delta that leads out of the calendar is not applied. -/
def Timestamp.sampleTime? (measured : Timestamp) (delta : Span) : Option Timestamp :=
  (((measured.add? delta).getD measured).toUtc?).map Timestamp.wholeSecond

/-- A container with its sample in progress. -/
structure Round where
  container : Container
  /-- Whether this round discovered the container. -/
  discovered : Bool
  timestamp : Timestamp
  /-- The document of the sample, still without its interfaces. -/
  document : Node
  /-- The interfaces of the sample by their names. -/
  interfaces : List (String × Node)
  /-- Whether a value has been written to the sample itself. -/
  produced : Bool
  /-- How many measurements have found a place. -/
  routed : Nat

namespace Round

/-- Where a sample holds its time stamp. -/
def timestampPath : String :=
  "/timestamp"

/-- The field of an interface that holds its name. -/
def nameField : String :=
  "name"

/-- The container of a round: the tracked one, or a new one with the skeleton's document. -/
def containerFor (template : Template) (ref : ContainerRef) (tracked : Option Container) :
    Except PathError Container :=
  match tracked with
  | some container => .ok container
  | none => Container.discover ref.key ref.id template.container.skeleton

/-- A round without values yet. -/
def startAt (template : Template) (ref : ContainerRef) (tracked : Option Container)
    (timestamp : Timestamp) (stamp : String) : Except PathError Round := do
  let document ← template.sample.skeleton.set timestampPath (.text stamp)
  let container ← containerFor template ref tracked
  return ⟨container, tracked.isNone, timestamp, document, [], false, 0⟩

/-- The round that a measurement starts, if its time can be written as a stamp. -/
def start? (template : Template) (settings : Settings) (ref : ContainerRef)
    (tracked : Option Container) (measured : Timestamp) : Except IngestFailure (Option Round) :=
  match measured.sampleTime? settings.timestampDelta with
  | none => .error .dateOverflow
  | some timestamp => match timestamp.stamp? with
    | none => .ok none
    | some stamp =>
      ((startAt template ref tracked timestamp stamp).mapError IngestFailure.path).map some

/-- The document of a new interface: the skeleton, with the name where it can hold one. -/
def newInterface (skeleton : Node) (name : String) : Node :=
  match skeleton with
  | .map fields => .map (Keyed.insert nameField (.text name) fields)
  | other => other

/-- The document of an interface in progress. -/
def interface (round : Round) (template : Template) (name : String) : Node :=
  (Keyed.get? name round.interfaces).getD (newInterface template.interface.skeleton name)

/-- The table that has a place for a namespace, with the specs found there. -/
inductive Place where
  | sample (specs : List Template.Spec)
  | interface (specs : List Template.Spec)
  | container (specs : List Template.Spec)
  | nowhere

/-- Where a measurement belongs: in the sample, else in an interface, else in the container. -/
def placeOf (template : Template) (namespaceText : String) : Place :=
  match template.sample.mapping.resolve? namespaceText with
  | some specs => .sample specs
  | none => match template.interface.mapping.resolve? namespaceText with
    | some specs => .interface specs
    | none => match template.container.mapping.resolve? namespaceText with
      | some specs => .container specs
      | none => .nowhere

/-- Writes a measurement to its place. Container fields are written only in the round that
discovers the container, and a measurement without a place is left out. -/
def write (round : Round) (template : Template) (m : Measurement) : Except PathError Round :=
  match placeOf template m.ns.display with
  | .sample specs => do
    let document ← Template.Region.writeTargets round.document specs m.value.scalar
    return { round with document, produced := true, routed := round.routed + 1 }
  | .interface specs => do
    let name := m.ns.interfaceName?.getD ""
    let document ←
      Template.Region.writeTargets (round.interface template name) specs m.value.scalar
    let interfaces := Keyed.insert name document round.interfaces
    return { round with interfaces, routed := round.routed + 1 }
  | .container specs =>
    if round.discovered then do
      let document ←
        Template.Region.writeTargets round.container.document specs m.value.scalar
      return { round with
        container := { round.container with document }, routed := round.routed + 1 }
    else .ok round
  | .nowhere => .ok round

/-- The finished sample, its interfaces listed in the order of their names. -/
def sample (round : Round) : Except PathError Sample := do
  let document ←
    round.document.set Template.interfacesPath (.list (Keyed.values round.interfaces))
  return ⟨round.timestamp, document⟩

/-- The container with the finished sample in its history. -/
def finish (round : Round) (policy : Retention) : Except PathError Container := do
  return round.container.push policy (← round.sample)

end Round

end ContainerFeed
