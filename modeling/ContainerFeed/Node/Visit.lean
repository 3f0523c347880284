import ContainerFeed.Node
import ContainerFeed.Path

/-!
# Visiting every node

The visits of a document list its nodes with their paths, depth first, a node before its
children, map fields in key order and list items in index order. A predicate on path and node
says which nodes are not entered; their descendants are not visited.
-/

namespace ContainerFeed.Node

mutual

/-- The nodes of a tree that stands at a path, with their paths. -/
def visitsFrom (prune : String → Node → Bool) (path : String) :
    Node → List (String × Node)
  | .map fields => (path, .map fields) ::
      (if prune path (.map fields) then [] else visitsOfFields prune path fields)
  | .list items => (path, .list items) ::
      (if prune path (.list items) then [] else visitsOfItems prune path 0 items)
  | .leaf value => [(path, .leaf value)]

/-- The visits below the fields of a map that stands at a path. -/
def visitsOfFields (prune : String → Node → Bool) (path : String) :
    List (String × Node) → List (String × Node)
  | [] => []
  | (key, value) :: rest =>
    visitsFrom prune (Path.join path key) value ++ visitsOfFields prune path rest

/-- The visits below the items of a list that stands at a path, from an index on. -/
def visitsOfItems (prune : String → Node → Bool) (path : String) (index : Nat) :
    List Node → List (String × Node)
  | [] => []
  | item :: rest =>
    visitsFrom prune (Path.join path (String.ofList (Text.natDigits index))) item ++
      visitsOfItems prune path (index + 1) rest

end

/-- The nodes of a document with their paths, starting at the root path. -/
def visits (prune : String → Node → Bool) (root : Node) : List (String × Node) :=
  root.visitsFrom prune Path.root

end ContainerFeed.Node
