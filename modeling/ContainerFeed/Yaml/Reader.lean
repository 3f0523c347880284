import ContainerFeed.Yaml.Lexer

/-!
# Reading YAML

A YAML document is a scalar, a list or a map. Lists and maps are written between brackets, or as
blocks whose entries begin in one column. A key or value may be left out wherever one is due.

The reader goes down from the document to its parts. Each step takes what it needs from the
tokens and returns the rest. Fuel bounds the steps; four for each token are enough, because of
four steps in a row at least one takes a token.
-/

namespace ContainerFeed.Yaml

/-- A value as it is written. Fields keep their order and their repetitions. -/
inductive Value where
  /-- Text without quotes. It is empty where nothing is written. -/
  | plain (text : String)
  | quoted (text : String)
  | list (items : List Value)
  | map (fields : List (Value × Value))

namespace Value

/-- What stands where nothing is written. -/
def nothing : Value :=
  .plain ""

end Value

/-- Whether a token ends an entry of a list between brackets, or the key of one. -/
def endsItem : Token → Bool
  | .comma => true
  | .listClose => true
  | _ => false

/-- Whether a token ends a field of a map between brackets. -/
def endsField : Token → Bool
  | .comma => true
  | .mapClose => true
  | _ => false

/-- Whether a token ends the key or the value of a field in a block. -/
def endsPart : Token → Bool
  | .key => true
  | .colon => true
  | .blockEnd => true
  | _ => false

/-- Whether a token ends an item of a block of its own. -/
def endsBlockItem : Token → Bool
  | .dash => true
  | .blockEnd => true
  | _ => false

/-- Whether a token ends an item of a list in the column of the key before it. -/
def endsInnerItem (token : Token) : Bool :=
  token = .dash || endsPart token

/-- Where a value stands. -/
inductive Position where
  /-- Between brackets. -/
  | flow
  | block
  /-- Behind a key of a block. The dashes of a list may stand in the column of the key. -/
  | field
  deriving DecidableEq

mutual

/-- Reads a value that is written. -/
def value? (fuel : Nat) (position : Position) (tokens : List Token) : Option (Value × List Token) :=
  match fuel, tokens with
  | 0, _ => none
  | _, .plain text :: rest => some (.plain text, rest)
  | _, .quoted text :: rest => some (.quoted text, rest)
  | fuel + 1, .listOpen :: rest => flowItems? fuel [] rest
  | fuel + 1, .mapOpen :: rest => flowFields? fuel [] rest
  | fuel + 1, .listBegin :: rest => if position = .flow then none else blockItems? fuel [] rest
  | fuel + 1, .mapBegin :: rest => if position = .flow then none else blockFields? fuel [] rest
  | fuel + 1, .dash :: rest =>
    if position = .field then innerItems? fuel [] (.dash :: rest) else none
  | _, _ => none

/-- Reads a value, or nothing before a token that ends the place for it. -/
def valueOrNothing? (fuel : Nat) (position : Position) (ends : Token → Bool)
    (tokens : List Token) : Option (Value × List Token) :=
  match fuel with
  | 0 => none
  | fuel + 1 => match tokens with
    | [] => none
    | token :: rest =>
      if ends token then some (.nothing, token :: rest)
      else value? fuel position (token :: rest)

/-- Reads the value of a field: what stands behind a colon, or nothing without one. -/
def valuePart? (fuel : Nat) (position : Position) (ends : Token → Bool)
    (tokens : List Token) : Option (Value × List Token) :=
  match fuel, tokens with
  | 0, _ => none
  | fuel + 1, .colon :: rest => valueOrNothing? fuel position ends rest
  | _, rest => some (.nothing, rest)

/-- Reads the items of a list up to the closing bracket. An item with a key is a map with one
field. A comma may follow the last one. -/
def flowItems? (fuel : Nat) (found : List Value) (tokens : List Token) :
    Option (Value × List Token) :=
  match fuel, tokens with
  | 0, _ => none
  | _, .listClose :: rest => some (.list found, rest)
  | fuel + 1, .key :: rest => do
    let (key, rest) ← pairKey? fuel rest
    let (value, rest) ← valuePart? fuel .flow endsItem rest
    moreItems? fuel (found ++ [.map [(key, value)]]) rest
  | fuel + 1, tokens => do
    let (item, rest) ← value? fuel .flow tokens
    moreItems? fuel (found ++ [item]) rest

/-- Reads the key of the only field of an item. A key sign without a key takes in the token
behind it. -/
def pairKey? (fuel : Nat) (tokens : List Token) : Option (Value × List Token) :=
  match fuel, tokens with
  | 0, _ => none
  | _, .colon :: rest => some (.nothing, rest)
  | _, .comma :: rest => some (.nothing, rest)
  | _, .listClose :: rest => some (.nothing, rest)
  | fuel + 1, tokens => value? fuel .flow tokens

/-- Reads what follows an item of a list between brackets. -/
def moreItems? (fuel : Nat) (found : List Value) (tokens : List Token) :
    Option (Value × List Token) :=
  match fuel, tokens with
  | 0, _ => none
  | fuel + 1, .comma :: rest => flowItems? fuel found rest
  | _, .listClose :: rest => some (.list found, rest)
  | _, _ => none

/-- Reads the fields of a map up to the closing bracket. A comma may follow the last one. -/
def flowFields? (fuel : Nat) (found : List (Value × Value)) (tokens : List Token) :
    Option (Value × List Token) :=
  match fuel, tokens with
  | 0, _ => none
  | _, .mapClose :: rest => some (.map found, rest)
  | fuel + 1, .key :: rest => do
    let (key, rest) ← valueOrNothing? fuel .flow (fun t => t = .colon || endsField t) rest
    let (value, rest) ← valuePart? fuel .flow endsField rest
    moreFields? fuel (found ++ [(key, value)]) rest
  | fuel + 1, tokens => do
    let (key, rest) ← value? fuel .flow tokens
    moreFields? fuel (found ++ [(key, .nothing)]) rest

/-- Reads what follows a field of a map between brackets. -/
def moreFields? (fuel : Nat) (found : List (Value × Value)) (tokens : List Token) :
    Option (Value × List Token) :=
  match fuel, tokens with
  | 0, _ => none
  | fuel + 1, .comma :: rest => flowFields? fuel found rest
  | _, .mapClose :: rest => some (.map found, rest)
  | _, _ => none

/-- Reads the items of a block up to its end. -/
def blockItems? (fuel : Nat) (found : List Value) (tokens : List Token) :
    Option (Value × List Token) :=
  match fuel, tokens with
  | 0, _ => none
  | _, .blockEnd :: rest => some (.list found, rest)
  | fuel + 1, .dash :: rest => do
    let (item, rest) ← valueOrNothing? fuel .block endsBlockItem rest
    blockItems? fuel (found ++ [item]) rest
  | _, _ => none

/-- Reads the items of a list in the column of the key before it. What is no dash ends it. -/
def innerItems? (fuel : Nat) (found : List Value) (tokens : List Token) :
    Option (Value × List Token) :=
  match fuel, tokens with
  | 0, _ => none
  | fuel + 1, .dash :: rest => do
    let (item, rest) ← valueOrNothing? fuel .block endsInnerItem rest
    innerItems? fuel (found ++ [item]) rest
  | _, rest => some (.list found, rest)

/-- Reads the fields of a block up to its end. -/
def blockFields? (fuel : Nat) (found : List (Value × Value)) (tokens : List Token) :
    Option (Value × List Token) :=
  match fuel, tokens with
  | 0, _ => none
  | _, .blockEnd :: rest => some (.map found, rest)
  | fuel + 1, .key :: rest => do
    let (key, rest) ← valueOrNothing? fuel .field endsPart rest
    let (value, rest) ← valuePart? fuel .field endsPart rest
    blockFields? fuel (found ++ [(key, value)]) rest
  | _, _ => none

end

/-- Reads a document up to its end. It may hold nothing behind the marker of its beginning. -/
def document? (tokens : List Token) : Option (Value × List Token) :=
  let fuel := 4 * tokens.length + 4
  match tokens with
  | [] => some (.nothing, [])
  | .documentStart :: [] => some (.nothing, [])
  | .documentStart :: rest =>
    valueOrNothing? fuel .block (fun t => t = .documentStart || t = .documentEnd) rest
  | tokens => value? fuel .block tokens

/-- Reads a text that holds one document. Nothing but markers of its end may follow. -/
def read? (text : String) : Option Value := do
  let (value, rest) ← document? (← tokensOf? text)
  if rest.all (· = .documentEnd) then some value else none

end ContainerFeed.Yaml
