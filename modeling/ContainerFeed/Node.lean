import ContainerFeed.Keyed
import ContainerFeed.Scalar

/-!
# Document trees

Templates, samples and served documents are trees of maps, lists and scalar leaves. Map fields
stand in ascending key order; that order is a predicate on trees and not part of the type, so
that recursion over a tree stays structural.
-/

namespace ContainerFeed

/-- A document tree. The fields of a map are a keyed list. -/
inductive Node where
  | map (fields : List (String × Node))
  | list (items : List Node)
  | leaf (value : Scalar)

namespace Node

instance : Inhabited Node :=
  ⟨.leaf .null⟩

/-- The map without fields. -/
def emptyMap : Node :=
  .map []

/-- The leaf that holds a text. -/
def text (value : String) : Node :=
  .leaf (.text value)

/-- Whether the node is a map. -/
def isMap : Node → Bool
  | .map _ => true
  | _ => false

/-- The fields of a map. -/
def fields? : Node → Option (List (String × Node))
  | .map fields => some fields
  | _ => none

/-- The items of a list. -/
def items? : Node → Option (List Node)
  | .list items => some items
  | _ => none

/-- The value of a leaf. -/
def scalar? : Node → Option Scalar
  | .leaf value => some value
  | _ => none

/-- The text of a leaf that holds one. -/
def text? : Node → Option String
  | .leaf (.text value) => some value
  | _ => none

/-- The value of a map's field. -/
def get? (key : String) (node : Node) : Option Node :=
  node.fields?.bind (Keyed.get? key)

mutual

/-- Every map of the tree has ascending keys. -/
def Ordered : Node → Prop
  | .map fields => Keyed.Ascending fields ∧ OrderedFields fields
  | .list items => OrderedItems items
  | .leaf _ => True

/-- Every field value of a map is ordered. -/
def OrderedFields : List (String × Node) → Prop
  | [] => True
  | (_, value) :: rest => value.Ordered ∧ OrderedFields rest

/-- Every item of a list is ordered. -/
def OrderedItems : List Node → Prop
  | [] => True
  | item :: rest => item.Ordered ∧ OrderedItems rest

end

mutual

/-- How many maps and lists are nested in each other. -/
def depth : Node → Nat
  | .map fields => depthFields fields + 1
  | .list items => depthItems items + 1
  | .leaf _ => 0

/-- The greatest depth among the field values. -/
def depthFields : List (String × Node) → Nat
  | [] => 0
  | (_, value) :: rest => max value.depth (depthFields rest)

/-- The greatest depth among the items. -/
def depthItems : List Node → Nat
  | [] => 0
  | item :: rest => max item.depth (depthItems rest)

end

mutual

/-- The document as a reader of its served text sees it, leaf by leaf. -/
def served : Node → Node
  | .map fields => .map (servedFields fields)
  | .list items => .list (servedItems items)
  | .leaf value => .leaf value.served

/-- Some fields as a reader of the served text sees them. -/
def servedFields : List (String × Node) → List (String × Node)
  | [] => []
  | (key, value) :: rest => (key, value.served) :: servedFields rest

/-- Some items as a reader of the served text sees them. -/
def servedItems : List Node → List Node
  | [] => []
  | item :: rest => item.served :: servedItems rest

end

mutual

/-- Equality of served documents: the same shape and keys, and leaves that are equal when
served. -/
def servedEqual : Node → Node → Bool
  | .map fs, .map gs => servedEqualFields fs gs
  | .list xs, .list ys => servedEqualItems xs ys
  | .leaf a, .leaf b => a.servedEqual b
  | _, _ => false

/-- Whether some fields are served alike. -/
def servedEqualFields : List (String × Node) → List (String × Node) → Bool
  | [], [] => true
  | (k, v) :: fs, (l, w) :: gs => k == l && v.servedEqual w && servedEqualFields fs gs
  | _, _ => false

/-- Whether some items are served alike. -/
def servedEqualItems : List Node → List Node → Bool
  | [], [] => true
  | x :: xs, y :: ys => x.servedEqual y && servedEqualItems xs ys
  | _, _ => false

end

end Node

end ContainerFeed
