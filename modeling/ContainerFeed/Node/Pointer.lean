import ContainerFeed.Node

/-!
# Pointers

A pointer names a node of a document by the steps from its root, each after a slash. Inside a
step `~1` stands for a slash and `~0` for a tilde. Unlike the steps of a path, a list index is
written in one way only, and empty steps count.
-/

namespace ContainerFeed.Node

/-- The step that an escaped text stands for. -/
def unescapeStep : List Char → List Char
  | [] => []
  | '~' :: '1' :: rest => '/' :: unescapeStep rest
  | '~' :: '0' :: rest => '~' :: unescapeStep rest
  | c :: rest => c :: unescapeStep rest

/-- The index that a step names: decimal digits without a sign or leading zeros. -/
def pointerIndex? (step : List Char) : Option Nat :=
  match step with
  | '+' :: _ => none
  | '0' :: _ :: _ => none
  | digits => (Text.readUInt64? digits).map UInt64.toNat

/-- The child that a step selects. -/
def pointerChild? (node : Node) (step : List Char) : Option Node :=
  match node with
  | .map fields => Keyed.get? (String.ofList step) fields
  | .list items => (pointerIndex? step).bind fun index => items[index]?
  | .leaf _ => none

/-- The node that a pointer names. The empty pointer names the document itself. -/
def pointer? (document : Node) (pointer : String) : Option Node :=
  match pointer.toList with
  | [] => some document
  | '/' :: steps =>
    ((steps.splitOn '/').map unescapeStep).foldlM pointerChild? document
  | _ => none

end ContainerFeed.Node
