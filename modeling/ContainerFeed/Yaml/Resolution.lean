import ContainerFeed.Binary64.Reading

/-!
# What plain scalars stand for

A plain scalar stands for null, a truth value, a number, or else for its text. Whole numbers are
written in base ten without leading zeros, or behind a mark in base sixteen, eight or two.
-/

namespace ContainerFeed.Yaml

/-- What a plain scalar stands for. -/
inductive Resolved where
  | null
  | bool (value : Bool)
  | uint (value : UInt64)
  | int (value : Int64)
  | float (value : Binary64)
  /-- A whole number for which 64 bits are too few but 128 are not. -/
  | wide
  | text (value : String)

/-- The value of a run of digits in a base of at most sixteen. -/
def readInBase? (base : Nat) (digits : List Char) : Option Nat :=
  if digits = [] then none
  else digits.foldlM (fun total c => match Text.hexDigit? c with
    | some digit => if digit < base then some (total * base + digit) else none
    | none => none) 0

/-- The digits of a number behind the mark of its base. -/
def basedDigits? : List Char → Option (Nat × List Char)
  | '0' :: 'x' :: digits => some (16, digits)
  | '0' :: 'o' :: digits => some (8, digits)
  | '0' :: 'b' :: digits => some (2, digits)
  | _ => none

/-- Digits that are no number because of the zero before them. -/
def isZeroPadded : List Char → Bool
  | '0' :: c :: rest => (c :: rest).all Char.isDigit
  | _ => false

/-- The value of a whole number without a sign. -/
def magnitude? (text : List Char) : Option Nat :=
  match basedDigits? text with
  | some (base, digits) => readInBase? base digits
  | none => if isZeroPadded text then none else Text.readDigits? text

/-- The value of a whole number that is not marked as negative. -/
def unsigned? : List Char → Option Nat
  | '+' :: rest => magnitude? rest
  | text => magnitude? text

/-- The value of a whole number behind a minus sign. -/
def negated? : List Char → Option Int
  | '-' :: rest => (magnitude? rest).map fun n => -(n : Int)
  | _ => none

/-- The words for a truth value. -/
def truth? (text : String) : Option Bool :=
  if ["true", "True", "TRUE"].contains text then some true
  else if ["false", "False", "FALSE"].contains text then some false
  else none

/-- Whether a text is a word for null. -/
def isNull (text : String) : Bool :=
  ["", "~", "null", "Null", "NULL"].contains text

/-- The value of a whole number, if 128 bits are enough for it. -/
def whole? (text : List Char) : Option Resolved :=
  match unsigned? text, negated? text with
  | some n, _ => match Text.uint64OfNat? n with
    | some value => some (.uint value)
    | none => if n < twoTo 128 then some .wide else none
  | none, some i => match Text.int64OfInt? i with
    | some value => some (.int value)
    | none => if -(twoTo 127 : Int) ≤ i then some .wide else none
  | none, none => none

/-- The values of the words for numbers that are not finite. A plus sign may stand only before
the one for infinity. -/
def notFinite? (text : List Char) : Option Binary64 :=
  let word := String.ofList text
  if [".inf", ".Inf", ".INF", "+.inf", "+.Inf", "+.INF"].contains word then
    some Binary64.infinity
  else if ["-.inf", "-.Inf", "-.INF"].contains word then some Binary64.infinity.neg
  else if [".nan", ".NaN", ".NAN"].contains word then some Binary64.nan
  else none

/-- A text without the plus sign it may begin with. A second sign is refused. -/
def afterPlus? : List Char → Option (List Char)
  | '+' :: '+' :: _ => none
  | '+' :: '-' :: _ => none
  | '+' :: rest => some rest
  | text => some text

/-- The value of a number that is not whole, or of a whole one that is wider than 128 bits. -/
def fraction? (text : List Char) : Option Binary64 :=
  match afterPlus? text with
  | none => none
  | some number =>
    if isZeroPadded (number.dropWhile (· == '-')) then none
    else (notFinite? text).or ((Binary64.read? number).filter Binary64.isFinite)

/-- What a plain scalar stands for. -/
def resolve (text : String) : Resolved :=
  if isNull text then .null
  else match truth? text with
    | some value => .bool value
    | none => match whole? text.toList with
      | some value => value
      | none => match fraction? text.toList with
        | some value => .float value
        | none => .text text

end ContainerFeed.Yaml
