import ContainerFeed.Json.Token
import ContainerFeed.Node

/-!
# Documents as text

A document is served as its tokens written one after another, without white space between them.
-/

namespace ContainerFeed.Node

open Json

mutual

/-- The tokens of a document. -/
def tokens : Node → List Token
  | .map fields => .openMap :: (fieldTokens fields ++ [.closeMap])
  | .list items => .openList :: (itemTokens items ++ [.closeList])
  | .leaf value => [.scalar value]

/-- The tokens of the fields of a map, with commas between the fields. -/
def fieldTokens : List (String × Node) → List Token
  | [] => []
  | [(key, value)] => .scalar (.text key) :: .colon :: value.tokens
  | (key, value) :: next :: rest =>
    .scalar (.text key) :: .colon :: (value.tokens ++ .comma :: fieldTokens (next :: rest))

/-- The tokens of the items of a list, with commas between the items. -/
def itemTokens : List Node → List Token
  | [] => []
  | [item] => item.tokens
  | item :: next :: rest => item.tokens ++ .comma :: itemTokens (next :: rest)

end

/-- The text of a document. -/
def render (document : Node) : String :=
  String.ofList (document.tokens.flatMap Token.spell)

end ContainerFeed.Node
