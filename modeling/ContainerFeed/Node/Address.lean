import ContainerFeed.Node
import ContainerFeed.Path

/-!
# Reading and writing at a path

A step selects a map's field by its key or a list's item by its index. Every operation on a path
follows the steps from the root by recursion on the list of steps; the ones that write rebuild
the containers on the way back. An operation that fails returns an error and no document.
-/

namespace ContainerFeed.Node

/-- The child that a step selects. -/
def child? (node : Node) (step : String) : Option Node :=
  match node with
  | .map fields => Keyed.get? step fields
  | .list items => (Text.readIndex? step).bind fun index => items[index]?
  | .leaf _ => none

/-- Puts a node in the place of the child that a step selects. -/
def putChild (node : Node) (step : String) (child : Node) : Node :=
  match node with
  | .map fields => .map (Keyed.insert step child fields)
  | .list items => match Text.readIndex? step with
    | some index => .list (items.set index child)
    | none => .list items
  | .leaf value => .leaf value

/-- The node at the end of some steps. -/
def follow? (node : Node) : List String → Option Node
  | [] => some node
  | step :: rest => match node.child? step with
    | none => none
    | some child => child.follow? rest

/-- Edits the node at the end of some steps, keeping what the edit returns beside the new
document. -/
def editAt {α : Type} (node : Node) (missing : PathError)
    (edit : Node → Except PathError (α × Node)) : List String → Except PathError (α × Node)
  | [] => edit node
  | step :: rest => match node.child? step with
    | none => .error missing
    | some child => match child.editAt missing edit rest with
      | .ok (result, edited) => .ok (result, node.putChild step edited)
      | .error e => .error e

/-- The index that a step names, when it lies within a list. -/
def indexWithin? (items : List Node) (step : String) : Option Nat :=
  (Text.readIndex? step).filter (· < items.length)

/-- Enters a value in a container: maps take any key, lists only the index of an item they
have. -/
def enter (path parent last : String) (value : Node) : Node → Except PathError (Unit × Node)
  | .map fields => .ok ((), .map (Keyed.insert last value fields))
  | .list items => match indexWithin? items last with
    | some index => .ok ((), .list (items.set index value))
    | none => .error (.notFound path)
  | .leaf _ => .error (.notAContainer parent)

/-- Takes an entry out of a container: a map loses the key, and a list keeps its length, the item
becoming null. -/
def withdraw (path parent last : String) : Node → Except PathError (Option Node × Node)
  | .map fields => .ok (Keyed.get? last fields, .map (Keyed.erase last fields))
  | .list items => match indexWithin? items last with
    | some index => .ok (items[index]?, .list (items.set index (.leaf .null)))
    | none => .error (.notFound path)
  | .leaf _ => .error (.notAContainer parent)

/-- The node at a path. -/
def seek (document : Node) (path : String) : Except PathError Node :=
  match document.follow? (Path.segments path) with
  | some node => .ok node
  | none => .error (.notFound path)

/-- Overwrites the node at a path, which must exist; returns the node that was there. -/
def replace (document : Node) (path : String) (value : Node) : Except PathError (Node × Node) :=
  document.editAt (.notFound path) (fun old => .ok (old, value)) (Path.segments path)

/-- Writes a value at a path. The parent must exist; the document itself can be replaced. -/
def set (document : Node) (path : String) (value : Node) : Except PathError Node :=
  match Path.parentAndLeaf path with
  | (parent, last) =>
    if last = "" then .ok value
    else (document.editAt (.notFound parent) (enter path parent last value)
      (Path.segments parent)).map Prod.snd

/-- Removes the entry at a path; returns what was there, and the document without it. -/
def remove (document : Node) (path : String) : Except PathError (Option Node × Node) :=
  match Path.parentAndLeaf path with
  | (parent, last) =>
    document.editAt (.notFound parent) (withdraw path parent last) (Path.segments parent)

end ContainerFeed.Node
