/-!
# Slash-delimited paths

A path names a node of a document by the steps from its root. Empty steps do not count, so
leading, repeated and trailing slashes change nothing, and the path of the root has no step.
-/

namespace ContainerFeed

/-- Why a path does not lead where an operation needs it to. -/
inductive PathError where
  | notFound (path : String)
  | notAContainer (path : String)
  deriving DecidableEq

/-- What is reported of an error. -/
def PathError.message : PathError → String
  | .notFound path => s!"path not found: {path}"
  | .notAContainer path => s!"node at {path} cannot hold children"

namespace Path

/-- The path of the root. -/
def root : String :=
  "/"

/-- The steps of a path: its non-empty pieces between slashes. -/
def segments (path : String) : List String :=
  ((path.toList.splitOn '/').filter (fun piece => piece ≠ [])).map String.ofList

/-- Whether a text ends with a slash. -/
def endsWithSlash (path : String) : Bool :=
  path.toList.getLast? == some '/'

/-- The path of a child. -/
def join (parent child : String) : String :=
  if endsWithSlash parent then parent ++ child else parent ++ "/" ++ child

/-- The path of the parent and the last step. The root has an empty last step, and whatever
stands directly below the root has the root as its parent. -/
def parentAndLeaf (path : String) : String × String :=
  let backwards := path.toList.reverse.dropWhile (· == '/')
  let leaf := String.ofList (backwards.takeWhile (· != '/')).reverse
  match (backwards.dropWhile (· != '/')).drop 1 with
  | [] => (root, leaf)
  | parent => (String.ofList parent.reverse, leaf)

end Path

end ContainerFeed
