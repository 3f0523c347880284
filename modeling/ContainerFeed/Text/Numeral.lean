import ContainerFeed.Power

/-!
# Whole numbers in decimal text

Reading and writing of whole numbers. A numeral is a non-empty run of the ten decimal digits,
leading zeros allowed; a sign may stand before it where the reader says so. Values are read
without a bound and then fitted to 64 bits, so a number that does not fit is no number.
-/

namespace ContainerFeed.Text

/-- The value of a decimal digit. -/
def digitValue (c : Char) : Nat :=
  c.toNat - 48

/-- The value of a hexadecimal digit in either case. -/
def hexDigit? (c : Char) : Option Nat :=
  let n := c.toNat
  if 48 ≤ n ∧ n ≤ 57 then some (n - 48)
  else if 97 ≤ n ∧ n ≤ 102 then some (n - 87)
  else if 65 ≤ n ∧ n ≤ 70 then some (n - 55)
  else none

/-- The value of a run of digits, continuing from the value of the digits before it. -/
def foldDigits (start : Nat) (digits : List Char) : Nat :=
  digits.foldl (fun total c => total * 10 + digitValue c) start

/-- The value of a non-empty run of digits. -/
def readDigits? (text : List Char) : Option Nat :=
  if text ≠ [] ∧ text.all Char.isDigit then some (foldDigits 0 text) else none

/-- The value of a numeral that a plus sign may precede. -/
def readNat? : List Char → Option Nat
  | '+' :: rest => readDigits? rest
  | text => readDigits? text

/-- The value of a numeral that a plus or minus sign may precede. -/
def readInt? : List Char → Option Int
  | '-' :: rest => (readDigits? rest).map (fun n => -(n : Int))
  | text => (readNat? text).map Int.ofNat

/-- A signed 64-bit number, when the value fits. -/
def int64OfInt? (value : Int) : Option Int64 :=
  if -(twoTo 63 : Int) ≤ value ∧ value < twoTo 63 then some (Int64.ofInt value) else none

/-- An unsigned 64-bit number, when the value fits. -/
def uint64OfNat? (value : Nat) : Option UInt64 :=
  if value < twoTo 64 then some (UInt64.ofNat value) else none

/-- Text as a signed 64-bit number. -/
def readInt64? (text : List Char) : Option Int64 :=
  (readInt? text).bind int64OfInt?

/-- Text as an unsigned 64-bit number. A minus sign is refused, also before zero. -/
def readUInt64? (text : List Char) : Option UInt64 :=
  (readNat? text).bind uint64OfNat?

/-- Text as the index of a list element: an unsigned 64-bit number, so that `+0` and `00`
name the first element too. -/
def readIndex? (text : String) : Option Nat :=
  (readUInt64? text.toList).map UInt64.toNat

/-- The decimal digits of a number. -/
def natDigits (n : Nat) : List Char :=
  Nat.toDigits 10 n

/-- A whole number in decimal, with a minus sign when negative. -/
def intDigits : Int → List Char
  | .ofNat n => natDigits n
  | .negSucc n => '-' :: natDigits (n + 1)

end ContainerFeed.Text
