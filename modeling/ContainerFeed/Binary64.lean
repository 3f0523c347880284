import ContainerFeed.Power

/-!
# Binary floating-point numbers of 64 bits

A number is kept as its 64 bits: sign, exponent, fraction. A finite one has the value
`significand * 2 ^ exponent`, up to the sign. All arithmetic here is exact arithmetic on natural
numbers followed by one rounding to the nearest representable value, ties to the even one.
-/

namespace ContainerFeed

/-- A binary floating-point number, by its bits. -/
structure Binary64 where
  bits : UInt64
  deriving DecidableEq

namespace Binary64

/-- The bits of positive infinity; every larger pattern without a sign is not a number. -/
def infinityBits : Nat :=
  0x7FF0000000000000

/-- The bits without the sign. -/
def magnitudeBits (x : Binary64) : Nat :=
  x.bits.toNat % twoTo 63

/-- Whether the sign bit is set. -/
def isNegative (x : Binary64) : Bool :=
  twoTo 63 ≤ x.bits.toNat

/-- Neither infinite nor no number. -/
def isFinite (x : Binary64) : Bool :=
  x.magnitudeBits < infinityBits

/-- Not a number. -/
def isNaN (x : Binary64) : Bool :=
  infinityBits < x.magnitudeBits

/-- Zero, of either sign. -/
def isZero (x : Binary64) : Bool :=
  x.magnitudeBits = 0

/-- The significand of a finite number. -/
def significand (x : Binary64) : Nat :=
  if x.magnitudeBits < twoTo 52 then x.magnitudeBits
  else twoTo 52 + x.magnitudeBits % twoTo 52

/-- The power of two that scales the significand of a finite number. -/
def exponent (x : Binary64) : Int :=
  (max (x.magnitudeBits / twoTo 52) 1 : Nat) - (1075 : Int)

/-- The positive zero. -/
def zero : Binary64 :=
  ⟨0⟩

/-- The positive infinity. -/
def infinity : Binary64 :=
  ⟨UInt64.ofNat infinityBits⟩

/-- The number that is not one, with the leading fraction bit set. -/
def nan : Binary64 :=
  ⟨0x7FF8000000000000⟩

/-- The number with the opposite sign. -/
def neg (x : Binary64) : Binary64 :=
  ⟨x.bits ^^^ 0x8000000000000000⟩

/-- The number with a minus sign set when asked for. -/
def withSign (negative : Bool) (x : Binary64) : Binary64 :=
  if negative then x.neg else x

/-- Numeric equality: both zeros are equal, and nothing equals what is not a number. -/
def numericallyEqual (x y : Binary64) : Bool :=
  !x.isNaN && !y.isNaN && (x.bits == y.bits || (x.isZero && y.isZero))

/-- A quotient rounded to the nearest whole number, an exact half to the even one. -/
def roundQuotient (num den : Nat) : Nat :=
  let q := num / den
  let r := num % den
  if 2 * r < den then q
  else if den < 2 * r then q + 1
  else if q % 2 = 0 then q
  else q + 1

/-- The whole number `k` for which `2 ^ k ≤ num / den < 2 ^ (k + 1)`, for positive arguments. -/
def floorLog2 (num den : Nat) : Int :=
  let k : Int := (num.log2 : Int) - (den.log2 : Int)
  if num * twoTo (-k).toNat < den * twoTo k.toNat then k - 1 else k

/-- The number nearest to a positive quotient; infinity when the quotient is too large. -/
def ofPositiveRatio (num den : Nat) : Binary64 :=
  let q : Int := max (floorLog2 num den - 52) (-1074)
  let m := roundQuotient (num * twoTo (-q).toNat) (den * twoTo q.toNat)
  ⟨UInt64.ofNat (min ((q + 1074).toNat * twoTo 52 + m) infinityBits)⟩

/-- The number nearest to a quotient of natural numbers. -/
def ofRatio (num den : Nat) : Binary64 :=
  if num = 0 then zero else ofPositiveRatio num den

/-- The number nearest to a natural number. -/
def ofNat (n : Nat) : Binary64 :=
  ofRatio n 1

/-- The number nearest to `n * 10 ^ k`. Values of `10 ^ 309` and more are infinite and values below
`10 ^ -324` are zero, whatever their digits. -/
def ofDecimal (n : Nat) (k : Int) : Binary64 :=
  let leading : Int := (Nat.toDigits 10 n).length + k
  if n = 0 ∨ leading ≤ -324 then zero
  else if 310 ≤ leading then infinity
  else ofRatio (n * tenTo k.toNat) (tenTo (-k).toNat)

/-- The numerator of the value of a finite number without its sign, over `denominator`. -/
def numerator (x : Binary64) : Nat :=
  x.significand * twoTo x.exponent.toNat

/-- The denominator, a power of two, that belongs to `numerator`. -/
def denominator (x : Binary64) : Nat :=
  twoTo (-x.exponent).toNat

/-- The rounded product of two finite numbers without their signs. -/
def mulMagnitudes (x y : Binary64) : Binary64 :=
  ofRatio (x.numerator * y.numerator) (x.denominator * y.denominator)

/-- The rounded quotient of two finite numbers without their signs, the second not zero. -/
def divMagnitudes (x y : Binary64) : Binary64 :=
  ofRatio (x.numerator * y.denominator) (x.denominator * y.numerator)

end Binary64

end ContainerFeed
