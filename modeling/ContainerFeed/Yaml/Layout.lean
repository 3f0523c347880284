import ContainerFeed.Yaml.Cell
import ContainerFeed.Yaml.Token

/-!
# Keys and blocks

Two things about a token are known only from its surroundings. That it begins a key shows at the
colon behind the key; then the key is announced where it began. That it begins or ends a block
shows in its column. The layout keeps what both need: the tokens so far, the columns of the open
blocks, and on each level of brackets the place where a key may have begun.
-/

namespace ContainerFeed.Yaml

/-- A place where a key may have begun. -/
structure KeyStart where
  /-- How many tokens come before it. -/
  position : Nat
  cell : Cell
  /-- Whether nothing but a key can begin here: the token stands in the column of a block. -/
  required : Bool

namespace KeyStart

/-- How many octets a key may take up, with all that stands before its colon. -/
def limit : Nat :=
  1024

/-- Whether the colon of a key would come too late at a cell: on another line, or too far
behind. -/
def isStale (key : KeyStart) (now : Cell) : Bool :=
  key.cell.line < now.line || key.cell.offset + limit < now.offset

/-- What is left of a place where a key may have begun, when a cell has been reached. A key that
is required cannot be given up. -/
def kept? (now : Cell) : Option KeyStart → Option (Option KeyStart)
  | none => some none
  | some key =>
    if !key.isStale now then some (some key)
    else if key.required then none
    else some none

end KeyStart

/-- How much of a text has been understood. -/
structure Layout where
  /-- The tokens, in their order. -/
  tokens : List Token
  /-- The columns of the open blocks, innermost first. -/
  blocks : List Nat
  /-- Where a key may have begun since the innermost open bracket. -/
  candidate : Option KeyStart
  /-- Where keys may have begun outside that bracket, and outside those around it. -/
  enclosing : List (Option KeyStart)
  /-- Whether a key may begin with the next token. -/
  keyAllowed : Bool

namespace Layout

/-- The layout before the first token. -/
def start : Layout :=
  ⟨[], [], none, [], true⟩

/-- Whether brackets are open. -/
def context (layout : Layout) : Context :=
  match layout.enclosing with
  | [] => .block
  | _ => .flow

/-- The least column in which a text may go on that began in the innermost block. -/
def leastColumn (layout : Layout) : Nat :=
  match layout.blocks with
  | [] => 0
  | column :: _ => column + 1

/-- The layout with one more token. It says whether a key may follow. -/
def emit (layout : Layout) (token : Token) (keyAllowed : Bool) : Layout :=
  { layout with tokens := layout.tokens ++ [token], keyAllowed }

/-! ## Keys -/

/-- Gives up the keys whose colon would come too late. -/
def expire? (layout : Layout) (now : Cell) : Option Layout := do
  let candidate ← KeyStart.kept? now layout.candidate
  let enclosing ← layout.enclosing.mapM (KeyStart.kept? now)
  return { layout with candidate, enclosing }

/-- Gives up the key that may have begun. -/
def dropKey? (layout : Layout) : Option Layout :=
  match layout.candidate with
  | some key => if key.required then none else some { layout with candidate := none }
  | none => some layout

/-- Keeps in mind that a key may begin at a cell. -/
def markKey? (layout : Layout) (cell : Cell) : Option Layout :=
  if layout.keyAllowed then do
    let required := layout.context = .block && layout.blocks.head? == some cell.column
    let layout ← layout.dropKey?
    return { layout with candidate := some ⟨layout.tokens.length, cell, required⟩ }
  else some layout

/-! ## Blocks -/

/-- Opens a block in a column if it lies to the right of the open ones. The token that begins
the block goes to a position among the tokens. Between brackets there are no blocks. -/
def openBlock (layout : Layout) (column position : Nat) (token : Token) : Layout :=
  if layout.context = .block && layout.leastColumn ≤ column then
    { layout with
      blocks := column :: layout.blocks
      tokens := layout.tokens.insertIdx position token }
  else layout

/-- Closes the innermost blocks, all for which a condition on the column holds. -/
def closeBlocks (layout : Layout) (ends : Nat → Bool) : Layout :=
  match layout.context with
  | .flow => layout
  | .block =>
    let ended := layout.blocks.takeWhile ends
    { layout with
      blocks := layout.blocks.drop ended.length
      tokens := layout.tokens ++ ended.map fun _ => .blockEnd }

/-- Closes all blocks, at a document marker or at the end of the text. -/
def closeAll? (layout : Layout) : Option Layout :=
  (layout.closeBlocks fun _ => true).dropKey?

/-! ## Signs -/

/-- The layout after a document marker. -/
def marker? (layout : Layout) (token : Token) : Option Layout :=
  layout.closeAll?.map fun layout => layout.emit token false

/-- The layout after an opening bracket. The brackets as a whole may be a key. -/
def opening? (layout : Layout) (cell : Cell) (token : Token) : Option Layout := do
  let layout ← layout.markKey? cell
  let inner := { layout with
    candidate := none, enclosing := layout.candidate :: layout.enclosing }
  return inner.emit token true

/-- The layout after a closing bracket. -/
def closing? (layout : Layout) (token : Token) : Option Layout := do
  let layout ← layout.dropKey?
  let outer := match layout.enclosing with
    | [] => layout
    | candidate :: enclosing => { layout with candidate, enclosing }
  return outer.emit token false

/-- The layout after a comma. -/
def comma? (layout : Layout) : Option Layout :=
  layout.dropKey?.map fun layout => layout.emit .comma true

/-- The layout after the dash of an item. -/
def dash? (layout : Layout) (cell : Cell) : Option Layout :=
  if layout.context = .block && !layout.keyAllowed then none
  else (layout.openBlock cell.column layout.tokens.length .listBegin).dropKey?.map
    fun layout => layout.emit .dash true

/-- The layout after a question mark, the sign before a key. -/
def keySign? (layout : Layout) (cell : Cell) : Option Layout :=
  if layout.context = .block && !layout.keyAllowed then none
  else (layout.openBlock cell.column layout.tokens.length .mapBegin).dropKey?.map
    fun layout => layout.emit .key (layout.context = .block)

/-- The layout after a colon behind a key. The key is announced where it began. -/
def colonBehind (layout : Layout) (key : KeyStart) : Layout :=
  let announced := { layout with
    candidate := none, tokens := layout.tokens.insertIdx key.position .key }
  (announced.openBlock key.cell.column key.position .mapBegin).emit .colon false

/-- The layout after a colon. -/
def colon? (layout : Layout) (cell : Cell) : Option Layout :=
  match layout.candidate with
  | some key => some (layout.colonBehind key)
  | none => match layout.context with
    | .flow => some (layout.emit .colon false)
    | .block =>
      if layout.keyAllowed then
        some ((layout.openBlock cell.column layout.tokens.length .mapBegin).emit .colon true)
      else none

end Layout

end ContainerFeed.Yaml
