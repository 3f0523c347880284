import ContainerFeed.Node.Address

/-!
# Writing and removing in place

Here a document is changed where it stands. A change first looks up the container that it is about,
then says what becomes of that container, and only then puts it back, so a failure comes before the
first node that is written.
-/

namespace ContainerFeed.Node

/-- Puts a node in the place that some steps lead to. -/
def putAt (node new : Node) : List String → Node
  | [] => new
  | step :: rest => match node.child? step with
    | some child => node.putChild step (child.putAt new rest)
    | none => node

/-- Steps on a document in place. A step that fails leaves the document that it has come to. -/
abbrev Change (α : Type) := ExceptT PathError (StateM Node) α

namespace Change

variable {α : Type}

/-- Carries the steps out on a document. -/
def on (change : Change α) (document : Node) : Except PathError α × Node :=
  Id.run (StateT.run (ExceptT.run change) document)

/-- An outcome that has been found without the document. -/
def settle (outcome : Except PathError α) : Change α :=
  ExceptT.mk (pure outcome)

/-- Changes the node at a path, which must exist. -/
def edit (path : String) (change : Node → Except PathError (α × Node)) : Change α := do
  let inner ← settle ((← get).seek path)
  let (result, edited) ← settle (change inner)
  modify fun document => document.putAt edited (Path.segments path)
  return result

end Change

/-- Writes a value at a path of the document. -/
def setInPlace (path : String) (value : Node) : Change Unit :=
  match Path.parentAndLeaf path with
  | (parent, last) =>
    if last = "" then modify fun _ => value
    else Change.edit parent (enter path parent last value)

/-- Removes the entry at a path of the document; returns what was there. -/
def removeInPlace (path : String) : Change (Option Node) :=
  match Path.parentAndLeaf path with
  | (parent, last) => Change.edit parent (withdraw path parent last)

end ContainerFeed.Node
