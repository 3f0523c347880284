/-!
# Characters in their places

The structure of a YAML text hangs on columns, so its characters are read as cells that know
where they stand. Line ends are of one form.
-/

namespace ContainerFeed.Yaml

/-- A character with its place. -/
structure Cell where
  char : Char
  /-- How many octets of the text come before the character. -/
  offset : Nat
  line : Nat
  column : Nat

/-- The character that may stand at the beginning of every line and counts for a column only. -/
def byteOrderMark : Char :=
  '\uFEFF'

/-- The characters that end a line once the usual line ends are of one form. -/
def isBreak (c : Char) : Bool :=
  c == '\n' || c == '\u2028' || c == '\u2029'

/-- White space within a line. -/
def isSpace (c : Char) : Bool :=
  c == ' ' || c == '\t'

/-- A character that may occur in a text at all. -/
def isPrintable (c : Char) : Bool :=
  let n := c.toNat
  n == 0x9 || n == 0xA || n == 0xD || (0x20 ≤ n && n ≤ 0x7E) || n == 0x85 ||
    (0xA0 ≤ n && n ≤ 0xD7FF) || (0xE000 ≤ n && n ≤ 0xFFFD) || 0x10000 ≤ n

/-- A character, a usual line end in the form that stands for all of them. -/
def unified (c : Char) : Char :=
  if c == '\r' || c == '\u0085' then '\n' else c

/-- The cells of a text that continues at a place. -/
def place (offset line column : Nat) : List Char → List Cell
  | [] => []
  | '\r' :: '\n' :: rest => ⟨'\n', offset, line, column⟩ :: place (offset + 2) (line + 1) 0 rest
  | c :: rest =>
    ⟨unified c, offset, line, column⟩ ::
      if isBreak (unified c) then place (offset + c.utf8Size) (line + 1) 0 rest
      else place (offset + c.utf8Size) line (column + 1) rest

/-- The cells of a text, if all its characters may occur. -/
def cellsOf? (text : String) : Option (List Cell) :=
  if text.toList.all isPrintable then some (place 0 0 0 text.toList) else none

/-- Whether the next character, if there is one, has a property. -/
def nextIs (p : Char → Bool) : List Cell → Bool
  | [] => false
  | c :: _ => p c.char

/-- Whether a token can end here: at white space, a line end or the end of the text. -/
def atTokenEnd : List Cell → Bool
  | [] => true
  | c :: _ => isSpace c.char || isBreak c.char

/-- Whether a document marker stands here: three times the same character at the beginning of a
line. -/
def atMarker (mark : Char) : List Cell → Bool
  | a :: b :: c :: rest =>
    a.column == 0 && a.char == mark && b.char == mark && c.char == mark && atTokenEnd rest
  | _ => false

/-- Whether the marker of a beginning or of an end of a document stands here. -/
def atDocumentMarker (cells : List Cell) : Bool :=
  atMarker '-' cells || atMarker '.' cells

/-- Whether brackets are open. -/
inductive Context where
  | block
  | flow
  deriving DecidableEq

end ContainerFeed.Yaml
