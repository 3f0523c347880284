import ContainerFeed.Json.Lexer
import ContainerFeed.Node

/-!
# From tokens to documents

The reader is a machine that takes one token at a time. Its state holds the containers that are
still open, innermost first, and says what may come next. A document may nest 127 containers.
-/

namespace ContainerFeed.Json

/-- An open container that waits for the value of its next entry. -/
inductive Frame where
  /-- A list with the items read so far, newest first. -/
  | list (items : List Node)
  /-- A map with the fields read so far, and the key whose value comes next. -/
  | map (fields : List (String × Node)) (key : String)

/-- What the reader expects next. -/
inductive Expecting where
  /-- A value. -/
  | value (outer : List Frame)
  /-- The first item of a list, or its end. -/
  | firstItem (outer : List Frame)
  /-- The first key of a map, or its end. -/
  | firstKey (outer : List Frame)
  /-- The key of a further field. -/
  | key (fields : List (String × Node)) (outer : List Frame)
  /-- The colon after a key. -/
  | colon (fields : List (String × Node)) (key : String) (outer : List Frame)
  /-- A comma or the end of a list. -/
  | endOfItem (items : List Node) (outer : List Frame)
  /-- A comma or the end of a map. -/
  | endOfField (fields : List (String × Node)) (outer : List Frame)
  /-- Nothing more. -/
  | nothing (document : Node)

/-- How many containers may be open at once. -/
def maxOpen : Nat :=
  127

/-- Hands a finished node to the container that waits for it. Of two fields with one key the
later stays. -/
def complete (node : Node) : List Frame → Expecting
  | [] => .nothing node
  | .list items :: outer => .endOfItem (node :: items) outer
  | .map fields key :: outer => .endOfField (Keyed.insert key node fields) outer

/-- The step on the first token of a value. -/
def stepValue (outer : List Frame) : Token → Option Expecting
  | .scalar value => some (complete (.leaf value) outer)
  | .openMap => if outer.length < maxOpen then some (.firstKey outer) else none
  | .openList => if outer.length < maxOpen then some (.firstItem outer) else none
  | _ => none

/-- The step on any token. -/
def step : Expecting → Token → Option Expecting
  | .value outer, token => stepValue outer token
  | .firstItem outer, .closeList => some (complete (.list []) outer)
  | .firstItem outer, token => stepValue (.list [] :: outer) token
  | .firstKey outer, .closeMap => some (complete (.map []) outer)
  | .firstKey outer, .scalar (.text key) => some (.colon [] key outer)
  | .key fields outer, .scalar (.text key) => some (.colon fields key outer)
  | .colon fields key outer, .colon => some (.value (.map fields key :: outer))
  | .endOfItem items outer, .comma => some (.value (.list items :: outer))
  | .endOfItem items outer, .closeList => some (complete (.list items.reverse) outer)
  | .endOfField fields outer, .comma => some (.key fields outer)
  | .endOfField fields outer, .closeMap => some (complete (.map fields) outer)
  | _, _ => none

/-- Takes all tokens, one after another. -/
def run : Expecting → List Token → Option Expecting
  | expecting, [] => some expecting
  | expecting, token :: rest => (step expecting token).bind (run · rest)

/-- The document that the tokens spell. -/
def ofTokens? (tokens : List Token) : Option Node :=
  match run (.value []) tokens with
  | some (.nothing document) => some document
  | _ => none

end ContainerFeed.Json

namespace ContainerFeed.Node

/-- The document that a text spells. -/
def parse? (text : String) : Option Node :=
  (Json.lex text.toList).bind Json.ofTokens?

end ContainerFeed.Node
