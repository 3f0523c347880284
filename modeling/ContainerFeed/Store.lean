import ContainerFeed.Store.Container
import ContainerFeed.Store.Counters

/-!
# The store of tracked containers

The store holds the tracked containers under their keys, and the counters. Reading never changes
it, and all reads of one state agree.
-/

namespace ContainerFeed

/-- The tracked containers and the counters. -/
structure Store where
  containers : List (String × Container)
  counters : Counters

namespace Store

/-- No containers yet. -/
def empty : Store :=
  ⟨[], .zero⟩

/-- The container under a key. -/
def get? (store : Store) (key : String) : Option Container :=
  Keyed.get? key store.containers

/-- The keys of the containers, in ascending order. -/
def keys (store : Store) : List String :=
  Keyed.keys store.containers

/-- How many containers are tracked. -/
def size (store : Store) : Nat :=
  store.containers.length

/-- The samples of a container, oldest first. -/
def history? (store : Store) (key : String) : Option (List Sample) :=
  (store.get? key).map Container.history

/-- The served document of a container. -/
def document? (store : Store) (key : String) : Except PathError (Option Node) :=
  match store.get? key with
  | none => .ok none
  | some container => container.render.map some

/-- The served documents of all containers under their keys. -/
def snapshot (store : Store) : Except PathError (List (String × Node)) :=
  store.containers.mapM fun (key, container) => do return (key, ← container.render)

end Store

end ContainerFeed
