import ContainerFeed.Binary64.Shortest
import ContainerFeed.Scalar

/-!
# Tokens of document text

Document text is JSON. Its tokens are the six punctuation marks and the scalars; a text between
quotation marks is a scalar, also where it is the key of a field. The writer's tokens are spelt
here, the reader's are recognised in the lexer.
-/

namespace ContainerFeed.Json

/-- A token of document text. -/
inductive Token where
  | openMap
  | closeMap
  | openList
  | closeList
  | comma
  | colon
  | scalar (value : Scalar)
  deriving DecidableEq

/-- A hexadecimal digit, in lower case. -/
def hexDigit (n : Nat) : Char :=
  if n < 10 then Char.ofNat (48 + n) else Char.ofNat (87 + n)

/-- One character inside quotation marks. Quotation marks and backslashes are escaped, and so is
every control character below the space. -/
def spellChar (c : Char) : List Char :=
  if c = '"' then ['\\', '"']
  else if c = '\\' then ['\\', '\\']
  else if c = '\x08' then ['\\', 'b']
  else if c = '\x0c' then ['\\', 'f']
  else if c = '\n' then ['\\', 'n']
  else if c = '\r' then ['\\', 'r']
  else if c = '\t' then ['\\', 't']
  else if c.toNat < 0x20 then
    ['\\', 'u', '0', '0', hexDigit (c.toNat / 16), hexDigit (c.toNat % 16)]
  else [c]

/-- A text between quotation marks. -/
def spellText (value : String) : List Char :=
  '"' :: (value.toList.flatMap spellChar ++ ['"'])

/-- A scalar as it is written. Floats that are not finite have no spelling of their own and are
written as null. -/
def spellScalar : Scalar → List Char
  | .null => "null".toList
  | .bool true => "true".toList
  | .bool false => "false".toList
  | .int value => Text.intDigits value.toInt
  | .uint value => Text.natDigits value.toNat
  | .float value => if value.isFinite then value.text else "null".toList
  | .text value => spellText value

/-- A token as it is written. -/
def Token.spell : Token → List Char
  | .openMap => ['\x7b']
  | .closeMap => ['\x7d']
  | .openList => ['[']
  | .closeList => [']']
  | .comma => [',']
  | .colon => [':']
  | .scalar value => spellScalar value

end ContainerFeed.Json
