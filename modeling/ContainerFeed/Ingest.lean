import ContainerFeed.Ingest.Round
import ContainerFeed.Store

/-!
# Taking in a batch

A batch goes into the store as a whole. Its measurements are shared out to the rounds of their
containers, every round ends with a sample, and only then the store changes. A failure anywhere
leaves no new store at all.
-/

namespace ContainerFeed

/-- What has become of a batch. -/
structure IngestReport where
  metricsReceived : Nat
  metricsRouted : Nat
  containersTouched : Nat
  samplesCommitted : Nat
  deriving DecidableEq

/-- The bounds on histories that the settings ask for. -/
def Settings.retention (settings : Settings) : Retention :=
  ⟨settings.statsDepth, settings.statsSpan⟩

namespace Store

/-- The round of a container after one of its measurements. A measurement that comes before the
round has started and cannot start it is skipped. -/
def advance (template : Template) (settings : Settings) (tracked : Option Container)
    (ref : ContainerRef) (round : Option Round) (m : Measurement) :
    Except IngestFailure (Option Round) := do
  let opened ← match round with
    | some round => .ok (some round)
    | none => Round.start? template settings ref tracked m.timestamp
  match opened with
  | none => return none
  | some round => return some (← (round.write template m).mapError IngestFailure.path)

/-- The rounds of a batch after one more measurement. -/
def share (store : Store) (template : Template) (settings : Settings)
    (rounds : List (String × Round)) (m : Measurement) :
    Except IngestFailure (List (String × Round)) :=
  match ContainerRef.classify? m.ns.display settings.metricPrefix with
  | none => .ok rounds
  | some ref => do
    let round ← advance template settings (store.get? ref.key) ref (Keyed.get? ref.key rounds) m
    return match round with
      | some round => Keyed.insert ref.key round rounds
      | none => rounds

/-- The rounds of a whole batch, under the keys of their containers. -/
def roundsOf (store : Store) (template : Template) (settings : Settings)
    (batch : List Measurement) : Except IngestFailure (List (String × Round)) :=
  batch.foldlM (store.share template settings) []

/-- The containers at the end of their rounds. -/
def finishRounds (settings : Settings) (rounds : List (String × Round)) :
    Except PathError (List (String × Container)) :=
  rounds.mapM fun (key, round) => do return (key, ← round.finish settings.retention)

/-- Puts containers under their keys. -/
def commit (store : Store) (containers : List (String × Container)) : Store :=
  { store with containers := Keyed.insertAll containers store.containers }

/-- How many measurements have found a place in some rounds. -/
def routedTotal : List (String × Round) → Nat
  | [] => 0
  | (_, round) :: rest => round.routed + routedTotal rest

/-- What a batch comes to, told from its rounds and the containers at their end. -/
def reportOf (batch : List Measurement) (rounds : List (String × Round))
    (containers : List (String × Container)) : IngestReport where
  metricsReceived := batch.length
  metricsRouted := routedTotal rounds
  containersTouched := rounds.length
  samplesCommitted := containers.length

/-- The counters after a batch with some rounds. -/
def count (counters : Counters) (batch : List Measurement) (rounds : List (String × Round)) :
    Counters :=
  counters.record (UInt64.ofNat batch.length) (UInt64.ofNat rounds.length)
    (UInt64.ofNat ((Keyed.values rounds).countP Round.produced))

/-- Takes in a batch. -/
def ingest (store : Store) (template : Template) (settings : Settings)
    (batch : List Measurement) : Except IngestFailure (IngestReport × Store) := do
  let rounds ← store.roundsOf template settings batch
  let containers ← (finishRounds settings rounds).mapError IngestFailure.path
  return (reportOf batch rounds containers,
    { store.commit containers with counters := count store.counters batch rounds })

end Store

end ContainerFeed
