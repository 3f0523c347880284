import ContainerFeed.Text.Numeral
import ContainerFeed.Yaml.Cell

/-!
# Scalars in a text

A scalar is plain, or it stands in single or double quotes. It may run over several lines: a line
end between two words counts as a space, further line ends are kept. Each scanner walks over the
cells once and returns the text and what follows it.
-/

namespace ContainerFeed.Yaml

/-- The white space since the last word. -/
inductive Gap where
  /-- White space on one line. -/
  | spaces (run : List Char)
  /-- A line end, if it counts, and those after it. -/
  | breaks (first : Option Char) (more : List Char)

namespace Gap

/-- The gap of no characters. -/
def empty : Gap :=
  .spaces []

/-- The gap with one more character. White space around line ends does not count. -/
def push (gap : Gap) (c : Char) : Gap :=
  match gap with
  | .spaces run => if isBreak c then .breaks (some c) [] else .spaces (run ++ [c])
  | .breaks first more => if isBreak c then .breaks first (more ++ [c]) else .breaks first more

/-- What the gap stands for in the text of a scalar. -/
def fold : Gap → List Char
  | .spaces run => run
  | .breaks none more => more
  | .breaks (some '\n') [] => [' ']
  | .breaks (some '\n') more => more
  | .breaks (some c) more => c :: more

/-- Whether a line end lies in the gap. -/
def spansLines : Gap → Bool
  | .spaces _ => false
  | .breaks _ _ => true

end Gap

/-- A character that means something between brackets. -/
def isFlowMark (c : Char) : Bool :=
  c == ',' || c == '[' || c == ']' || c == '\x7b' || c == '\x7d'

/-- A character that no plain scalar begins with. -/
def isIndicator (c : Char) : Bool :=
  isFlowMark c || c == '#' || c == '&' || c == '*' || c == '!' || c == '|' || c == '>' ||
    c == '\'' || c == '"' || c == '%' || c == '@' || c == '\x60' || c == '-' || c == '?' ||
    c == ':'

/-- Whether a plain scalar begins here. Some indicators count as such only before white
space. -/
def beginsPlain (context : Context) : List Cell → Bool
  | [] => false
  | c :: rest =>
    if isSpace c.char || isBreak c.char then false
    else if c.char == '-' then !atTokenEnd rest
    else if c.char == '?' || c.char == ':' then context = .block && !atTokenEnd rest
    else !isIndicator c.char

/-- What has been read of a plain scalar: its text, the gap behind it, and what follows. -/
structure PlainScan where
  text : List Char
  gap : Gap
  rest : List Cell

/-- Scans a plain scalar, of which some text and a gap have been read. In block context its
lines begin at a least column. -/
def scanPlain? (context : Context) (least : Nat) (text : List Char) (gap : Gap) :
    List Cell → Option PlainScan
  | [] => some ⟨text, gap, []⟩
  | c :: rest =>
    if isSpace c.char || isBreak c.char then
      if c.char == '\t' && gap.spansLines && c.column < least then none
      else scanPlain? context least text (gap.push c.char) rest
    else
      let fresh := match gap with
        | .spaces [] => false
        | _ => true
      let outside := gap.spansLines && context = .block && c.column < least
      if (fresh && c.char == '#') || outside ||
          (gap.spansLines && atDocumentMarker (c :: rest)) then some ⟨text, gap, c :: rest⟩
      else if c.char == ':' && atTokenEnd rest then some ⟨text, gap, c :: rest⟩
      else if context = .flow && c.char == ':' && nextIs (fun d => isFlowMark d || d == '?') rest
      then none
      else if context = .flow && isFlowMark c.char then some ⟨text, gap, c :: rest⟩
      else scanPlain? context least (text ++ gap.fold ++ [c.char]) .empty rest

/-- Scans a scalar in single quotes, after the first of them. A quote inside is written
twice. -/
def scanSingle? (text : List Char) (gap : Gap) : List Cell → Option (List Char × List Cell)
  | [] => none
  | [c] => if c.char == '\'' then some (text ++ gap.fold, []) else none
  | c :: d :: rest =>
    if gap.spansLines && atDocumentMarker (c :: d :: rest) then none
    else if isSpace c.char || isBreak c.char then
      scanSingle? text (gap.push c.char) (d :: rest)
    else if c.char == '\'' then
      if d.char == '\'' then scanSingle? (text ++ gap.fold ++ ['\'']) .empty rest
      else some (text ++ gap.fold, d :: rest)
    else scanSingle? (text ++ gap.fold ++ [c.char]) .empty (d :: rest)

/-- The character that a letter after a backslash stands for. -/
def escaped? : Char → Option Char
  | '0' => some '\x00'
  | 'a' => some '\x07'
  | 'b' => some '\x08'
  | 't' => some '\t'
  | '\t' => some '\t'
  | 'n' => some '\n'
  | 'v' => some '\x0b'
  | 'f' => some '\x0c'
  | 'r' => some '\r'
  | 'e' => some '\x1b'
  | ' ' => some ' '
  | '"' => some '"'
  | '/' => some '/'
  | '\\' => some '\\'
  | 'N' => some '\u0085'
  | '_' => some '\u00a0'
  | 'L' => some '\u2028'
  | 'P' => some '\u2029'
  | _ => none

/-- How many hexadecimal digits follow a letter after a backslash. -/
def codeWidth? : Char → Option Nat
  | 'x' => some 2
  | 'u' => some 4
  | 'U' => some 8
  | _ => none

/-- The character with a code point, unless it is half of a surrogate pair or too large. -/
def charOf? (code : Nat) : Option Char :=
  if code < 0xD800 ∨ (0xDFFF < code ∧ code < 0x110000) then some (Char.ofNat code) else none

/-- Where a scanner stands between double quotes. -/
inductive QuoteState where
  | plain
  | escape
  /-- In a code point of which some digits are still to come. -/
  | code (left value : Nat)

/-- Scans a scalar in double quotes, after the first of them. A line end after a backslash
counts as nothing. -/
def scanDouble? (state : QuoteState) (text : List Char) (gap : Gap) :
    List Cell → Option (List Char × List Cell)
  | [] => none
  | c :: rest =>
    match state with
    | .plain =>
      if gap.spansLines && atDocumentMarker (c :: rest) then none
      else if isSpace c.char || isBreak c.char then
        scanDouble? .plain text (gap.push c.char) rest
      else if c.char == '"' then some (text ++ gap.fold, rest)
      else if c.char == '\\' then scanDouble? .escape (text ++ gap.fold) .empty rest
      else scanDouble? .plain (text ++ gap.fold ++ [c.char]) .empty rest
    | .escape =>
      if isBreak c.char then scanDouble? .plain text (.breaks none []) rest
      else match escaped? c.char, codeWidth? c.char with
        | some e, _ => scanDouble? .plain (text ++ [e]) .empty rest
        | none, some width => scanDouble? (.code width 0) text .empty rest
        | none, none => none
    | .code left value => match Text.hexDigit? c.char with
      | none => none
      | some digit =>
        let value := value * 16 + digit
        if left ≤ 1 then match charOf? value with
          | some e => scanDouble? .plain (text ++ [e]) .empty rest
          | none => none
        else scanDouble? (.code (left - 1) value) text .empty rest

end ContainerFeed.Yaml
