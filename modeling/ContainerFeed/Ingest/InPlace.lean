import ContainerFeed.Ingest

/-!
# Taking in a batch in place

Here the store is changed where it stands, entry by entry, and a failure undoes nothing: what has
been written by then stays. Every step that can fail therefore comes before the first one that
writes.
-/

namespace ContainerFeed.Store

/-- Steps on the store in place. A step that fails leaves the store that it has come to. -/
abbrev Change (α : Type) := ExceptT IngestFailure (StateM Store) α

namespace Change

/-- Carries the steps out on a store. -/
def on {α : Type} (change : Change α) (store : Store) : Except IngestFailure α × Store :=
  Id.run (StateT.run (ExceptT.run change) store)

/-- An outcome that has been found without the store. -/
def settle {α : Type} (outcome : Except IngestFailure α) : Change α :=
  ExceptT.mk (pure outcome)

end Change

/-- Shares out a measurement, looking up its container in the store as it stands. -/
def shareInPlace (template : Template) (settings : Settings) (rounds : List (String × Round))
    (m : Measurement) : Change (List (String × Round)) := do
  Change.settle ((← get).share template settings rounds m)

/-- Puts one container under its key. -/
def put (entry : String × Container) : Change Unit :=
  modify fun store => { store with containers := Keyed.insert entry.1 entry.2 store.containers }

/-- Takes in a batch in place: all rounds, then their samples, then one container after another,
and the counters at the end. -/
def ingestInPlace (template : Template) (settings : Settings) (batch : List Measurement) :
    Change IngestReport := do
  let rounds ← batch.foldlM (shareInPlace template settings) []
  let containers ←
    Change.settle ((finishRounds settings rounds).mapError IngestFailure.path)
  containers.forM put
  modify fun store => { store with counters := count store.counters batch rounds }
  return reportOf batch rounds containers

end ContainerFeed.Store
