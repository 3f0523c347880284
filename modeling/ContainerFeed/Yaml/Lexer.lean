import ContainerFeed.Yaml.Layout
import ContainerFeed.Yaml.Scalar

/-!
# From text to tokens

Tokens are taken one after the other from the beginning of the text. Before each one white
space and comments are dropped, keys whose colon would come too late are given up, and the blocks
end that lie to the right. Directives, tags, anchors and block scalars are not read.
-/

namespace ContainerFeed.Yaml

/-- Drops white space, line ends and comments before a token, and says whether a key may begin
with it. Where a key may begin outside of brackets a tab is no white space, since it would stand
for an indentation. A new line outside of brackets may begin with a key. -/
def toToken (context : Context) (keyAllowed comment : Bool) : List Cell → Bool × List Cell
  | [] => (keyAllowed, [])
  | c :: rest =>
    if isBreak c.char then toToken context (keyAllowed || context = .block) false rest
    else if comment || c.char == ' ' || (c.char == byteOrderMark && c.column == 0) ||
        (c.char == '\t' && (context = .flow || !keyAllowed)) then
      toToken context keyAllowed comment rest
    else if c.char == '#' then toToken context keyAllowed true rest
    else (keyAllowed, c :: rest)

namespace Layout

/-- The layout after a scalar in quotes, and what follows. -/
def quoted? (layout : Layout) (cell : Cell) (scanned : Option (List Char × List Cell)) :
    Option (Layout × List Cell) := do
  let layout ← layout.markKey? cell
  let (text, rest) ← scanned
  return (layout.emit (.quoted (String.ofList text)) false, rest)

/-- The layout after a plain scalar, and what follows. If the line has ended meanwhile, a key may
come next. -/
def plain? (layout : Layout) (cell : Cell) (rest : List Cell) : Option (Layout × List Cell) := do
  let layout ← layout.markKey? cell
  let scan ← scanPlain? layout.context layout.leastColumn [] .empty (cell :: rest)
  return (layout.emit (.plain (String.ofList scan.text)) scan.gap.spansLines, scan.rest)

/-- The layout after the token that begins with a cell, and what follows. -/
def token? (layout : Layout) (c : Cell) (rest : List Cell) : Option (Layout × List Cell) :=
  let sign (layout : Option Layout) := layout.map fun layout => (layout, rest)
  let flow : Bool := layout.context = .flow
  if atMarker '-' (c :: rest) then
    (layout.marker? .documentStart).map fun layout => (layout, rest.drop 2)
  else if atMarker '.' (c :: rest) then
    (layout.marker? .documentEnd).map fun layout => (layout, rest.drop 2)
  else if c.char == '[' then sign (layout.opening? c .listOpen)
  else if c.char == '\x7b' then sign (layout.opening? c .mapOpen)
  else if c.char == ']' then sign (layout.closing? .listClose)
  else if c.char == '\x7d' then sign (layout.closing? .mapClose)
  else if c.char == ',' then sign layout.comma?
  else if c.char == '-' && atTokenEnd rest then sign (layout.dash? c)
  else if c.char == '?' && (flow || atTokenEnd rest) then sign (layout.keySign? c)
  else if c.char == ':' && (flow || atTokenEnd rest) then sign (layout.colon? c)
  else if c.char == '\'' then layout.quoted? c (scanSingle? [] .empty rest)
  else if c.char == '"' then layout.quoted? c (scanDouble? .plain [] .empty rest)
  else if beginsPlain layout.context (c :: rest) then layout.plain? c rest
  else none

/-- The tokens of a layout and of what follows. Each token takes at least one cell. -/
def run? (layout : Layout) (cells : List Cell) : Option (List Token) :=
  let (keyAllowed, next) := toToken layout.context layout.keyAllowed false cells
  let layout := { layout with keyAllowed }
  match next with
  | [] => layout.closeAll?.map Layout.tokens
  | c :: rest => do
    let layout ← layout.expire? c
    let (layout, rest) ← (layout.closeBlocks (c.column < ·)).token? c rest
    if _h : rest.length < cells.length then run? layout rest else none
termination_by cells.length

end Layout

/-- The tokens of a text. -/
def tokensOf? (text : String) : Option (List Token) :=
  (cellsOf? text).bind Layout.start.run?

end ContainerFeed.Yaml
