import ContainerFeed.Binary64
import ContainerFeed.Text.Numeral

/-!
# Floating-point numbers in text

The reader of free-standing floating-point text: an optional sign, digits with an optional
point, an optional exponent, or one of the words for infinity and for what is not a number.
The value is the representable number nearest to the decimal; too large a decimal is infinite.
-/

namespace ContainerFeed.Binary64

/-- The value of an exponent part: nothing, or the letter and a signed numeral. -/
def readExponent? : List Char → Option Int
  | [] => some 0
  | c :: rest => if c = 'e' ∨ c = 'E' then Text.readInt? rest else none

/-- The value of digits with an optional point and exponent, at least one digit before the
exponent. -/
def readUnsigned? (text : List Char) : Option Binary64 :=
  let whole := text.takeWhile Char.isDigit
  let afterWhole := text.dropWhile Char.isDigit
  let fraction := match afterWhole with
    | '.' :: rest => rest.takeWhile Char.isDigit
    | _ => []
  let afterFraction := match afterWhole with
    | '.' :: rest => rest.dropWhile Char.isDigit
    | rest => rest
  if whole ++ fraction = [] then none
  else (readExponent? afterFraction).map fun exponent =>
    ofDecimal (Text.foldDigits 0 (whole ++ fraction)) (exponent - fraction.length)

/-- The value named by a word, in any mixture of cases. -/
def readWord? (text : List Char) : Option Binary64 :=
  match text.map Char.toLower with
  | ['i', 'n', 'f'] => some infinity
  | ['i', 'n', 'f', 'i', 'n', 'i', 't', 'y'] => some infinity
  | ['n', 'a', 'n'] => some nan
  | _ => none

/-- The value of a word or of digits. -/
def readMagnitude? (text : List Char) : Option Binary64 :=
  (readWord? text).or (readUnsigned? text)

/-- Text as a floating-point number. -/
def read? : List Char → Option Binary64
  | '-' :: rest => (readMagnitude? rest).map neg
  | '+' :: rest => readMagnitude? rest
  | text => readMagnitude? text

end ContainerFeed.Binary64
