import ContainerFeed.Scalar

/-!
# Numbers in document text

A numeral has an optional minus sign, whole digits without a superfluous leading zero, an
optional fraction and an optional exponent. Whole numerals that fit 64 bits are exact. All other
numerals are floats, read from a significand of at most 64 bits that is then multiplied or
divided by a power of ten, with one rounding for each of these operations.
-/

namespace ContainerFeed.Json

/-- The parts of a numeral. -/
structure Numeral where
  negative : Bool
  whole : List Char
  fraction : List Char
  /-- Whether the exponent is negative, and its digits. -/
  exponent : Option (Bool × List Char)
  deriving DecidableEq

/-- Appends digits to a significand for as long as it fits 64 bits; returns it with the digits
that were left over. -/
def accumulate (significand : Nat) : List Char → Nat × List Char
  | [] => (significand, [])
  | c :: rest =>
    let next := significand * 10 + Text.digitValue c
    if next < twoTo 64 then accumulate next rest else (significand, c :: rest)

/-- The greatest power of ten that a float is scaled by in one operation. -/
def scaleStep : Nat :=
  308

/-- The float nearest to a power of ten. -/
def powerOfTen (exponent : Nat) : Binary64 :=
  Binary64.ofNat (tenTo exponent)

/-- Divides by a power of ten, by `10 ^ 308` at a time while the exponent is larger. -/
def scaleDown (value : Binary64) (exponent : Nat) : Binary64 :=
  if exponent ≤ scaleStep then value.divMagnitudes (powerOfTen exponent)
  else if value.isZero then value
  else scaleDown (value.divMagnitudes (powerOfTen scaleStep)) (exponent - scaleStep)
termination_by exponent
decreasing_by simp only [scaleStep] at *; omega

/-- Multiplies by a power of ten; a result that is too large is refused. -/
def scaleUp? (value : Binary64) (exponent : Nat) : Option Binary64 :=
  if value.isZero then some value
  else if exponent ≤ scaleStep then
    let scaled := value.mulMagnitudes (powerOfTen exponent)
    if scaled.isFinite then some scaled else none
  else none

/-- The float that a significand and a power of ten stand for. -/
def scale? (significand : Nat) (exponent : Int) : Option Binary64 :=
  if 0 ≤ exponent then scaleUp? (Binary64.ofNat significand) exponent.toNat
  else some (scaleDown (Binary64.ofNat significand) (-exponent).toNat)

/-- The greatest exponent that is taken at its value. -/
def maxExponent : Nat :=
  2147483647

namespace Numeral

/-- The significand of the digits, and the power of ten that belongs to it. Whole digits that do
not fit still count towards the power; fraction digits that do not fit are ignored. -/
def decimal (n : Numeral) : Nat × Int :=
  let (whole, wholeLeft) := accumulate 0 n.whole
  let (significand, fractionLeft) := accumulate whole n.fraction
  (significand, wholeLeft.length - ((n.fraction.length : Int) - fractionLeft.length))

/-- The numeral as a float without its sign. -/
def magnitude? (n : Numeral) : Option Binary64 :=
  let (significand, power) := n.decimal
  match n.exponent with
  | none => scale? significand power
  | some (negative, digits) =>
    let exponent := Text.foldDigits 0 digits
    if exponent ≤ maxExponent then
      scale? significand (if negative then power - exponent else power + exponent)
    else if negative || significand == 0 then some Binary64.zero
    else none

/-- The numeral as a float. -/
def float? (n : Numeral) : Option Scalar :=
  n.magnitude?.map fun value => .float (value.withSign n.negative)

/-- The value of a numeral. A whole one is signed if it fits, else unsigned if that fits, and the
negative zero is a float; a float that is too large is refused. -/
def value? (n : Numeral) : Option Scalar :=
  if n.fraction ≠ [] ∨ n.exponent ≠ none then n.float?
  else
    let whole := Text.foldDigits 0 n.whole
    if n.negative then
      if whole = 0 then n.float?
      else match Text.int64OfInt? (-(whole : Int)) with
        | some i => some (.int i)
        | none => n.float?
    else match Text.int64OfInt? whole with
      | some i => some (.int i)
      | none => match Text.uint64OfNat? whole with
        | some u => some (.uint u)
        | none => n.float?

end Numeral

/-- The digits that a text begins with. -/
def leadingDigits (text : List Char) : List Char :=
  text.takeWhile Char.isDigit

/-- A text without the digits it begins with. -/
def afterDigits (text : List Char) : List Char :=
  text.dropWhile Char.isDigit

/-- Whether digits spell a whole number without a superfluous leading zero. -/
def isPlainWhole (digits : List Char) : Bool :=
  digits != [] && (digits.head? != some '0' || digits.length == 1)

/-- Reads whole digits. -/
def scanWhole? (text : List Char) : Option (List Char × List Char) :=
  if isPlainWhole (leadingDigits text) then some (leadingDigits text, afterDigits text) else none

/-- Reads an optional fraction, which has at least one digit. -/
def scanFraction? : List Char → Option (List Char × List Char)
  | '.' :: rest =>
    if leadingDigits rest = [] then none else some (leadingDigits rest, afterDigits rest)
  | text => some ([], text)

/-- Reads the digits of an exponent, at least one. -/
def scanExponentDigits? (negative : Bool) (text : List Char) :
    Option (Option (Bool × List Char) × List Char) :=
  if leadingDigits text = [] then none
  else some (some (negative, leadingDigits text), afterDigits text)

/-- Reads the sign and the digits of an exponent. -/
def scanSignedExponent? : List Char → Option (Option (Bool × List Char) × List Char)
  | '-' :: digits => scanExponentDigits? true digits
  | '+' :: digits => scanExponentDigits? false digits
  | digits => scanExponentDigits? false digits

/-- Reads an optional exponent. -/
def scanExponent? : List Char → Option (Option (Bool × List Char) × List Char)
  | 'e' :: rest => scanSignedExponent? rest
  | 'E' :: rest => scanSignedExponent? rest
  | text => some (none, text)

/-- Reads a numeral after its sign. -/
def scanUnsigned? (negative : Bool) (text : List Char) : Option (Numeral × List Char) :=
  (scanWhole? text).bind fun whole =>
  (scanFraction? whole.2).bind fun fraction =>
  (scanExponent? fraction.2).map fun exponent =>
    (⟨negative, whole.1, fraction.1, exponent.1⟩, exponent.2)

/-- Reads a numeral, sign included. -/
def scanNumeral? : List Char → Option (Numeral × List Char)
  | '-' :: rest => scanUnsigned? true rest
  | text => scanUnsigned? false text

/-- Reads a number at the beginning of a text. -/
def scanNumber? (text : List Char) : Option (Scalar × List Char) :=
  (scanNumeral? text).bind fun found => found.1.value?.map fun value => (value, found.2)

end ContainerFeed.Json
