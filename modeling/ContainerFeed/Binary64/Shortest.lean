import ContainerFeed.Binary64
import ContainerFeed.Text.Numeral

/-!
# The shortest decimal that reads back

Every finite number has an interval of reals that round to it. Among the decimals inside it
those with the fewest digits are taken, and of these the nearest to the value, an exact tie
going to the even digit. The search goes over grids of one, two, up to seventeen digits and
looks at the two neighbours of the value on each.
-/

namespace ContainerFeed.Binary64

/-- A positive decimal number: its digits as a whole number, and the power of ten of the first
of them. -/
structure Decimal where
  digits : Nat
  leading : Int
  deriving DecidableEq

/-- The whole number `k` for which `10 ^ k ≤ num / den < 10 ^ (k + 1)`, for positive arguments. -/
def floorLog10 (num den : Nat) : Int :=
  let k : Int := floorLog2 num den * 30103 / 100000
  if den * tenTo (k + 1).toNat ≤ num * tenTo (-(k + 1)).toNat then k + 1
  else if num * tenTo (-k).toNat < den * tenTo k.toNat then k - 1
  else k

/-- Four times the lower end of the rounding interval, in units of `2 ^ exponent`. Below a power
of two the neighbour is half as far away. -/
def lowerEnd (x : Binary64) : Nat :=
  if x.significand = twoTo 52 ∧ twoTo 53 ≤ x.magnitudeBits then 4 * x.significand - 1
  else 4 * x.significand - 2

/-- Four times the upper end of the rounding interval, in units of `2 ^ exponent`. -/
def upperEnd (x : Binary64) : Nat :=
  4 * x.significand + 2

/-- Whether a multiple of a decimal grid lies in the rounding interval. The ends belong to it
when the significand is even. `scale` and `unit` bring both sides to one denominator. -/
def rounds (x : Binary64) (scale unit multiple : Nat) : Bool :=
  if x.significand % 2 = 0 then
    x.lowerEnd * scale ≤ multiple * unit && multiple * unit ≤ x.upperEnd * scale
  else
    x.lowerEnd * scale < multiple * unit && multiple * unit < x.upperEnd * scale

/-- The neighbour of the value on the grid of `10 ^ step` that reads back, the nearer of the two
when both do. -/
def onGrid? (x : Binary64) (step : Int) : Option Nat :=
  let scale := twoTo x.exponent.toNat * tenTo (-step).toNat
  let unit := 4 * twoTo (-x.exponent).toNat * tenTo step.toNat
  let value := 4 * x.significand * scale
  let below := value / unit
  let above := below + 1
  let lowHit := x.rounds scale unit below
  let highHit := x.rounds scale unit above
  if lowHit && highHit then
    let lowGap := value - below * unit
    let highGap := above * unit - value
    if lowGap < highGap then some below
    else if highGap < lowGap then some above
    else if below % 2 = 0 then some below
    else some above
  else if lowHit then some below
  else if highHit then some above
  else none

/-- The first hit on the grids of `count`, `count + 1`, … digits, `fuel` grids in all. -/
def searchGrids (x : Binary64) (leading : Int) : Nat → Nat → Nat × Int
  | 0, count => (x.significand, leading - count)
  | fuel + 1, count =>
    let step := leading + 1 - count
    match x.onGrid? step with
    | some multiple => (multiple, step)
    | none => searchGrids x leading fuel (count + 1)

/-- A multiple of a power of ten with its trailing zeros moved into the power. -/
def stripZeros (fuel : Nat) (digits : Nat) (step : Int) : Nat × Int :=
  match fuel with
  | 0 => (digits, step)
  | fuel + 1 =>
    if digits % 10 = 0 then stripZeros fuel (digits / 10) (step + 1) else (digits, step)

/-- The shortest decimal that reads back as a finite, non-zero number, without its sign. -/
def shortest (x : Binary64) : Decimal :=
  let leading := floorLog10 x.numerator x.denominator
  let found := searchGrids x leading 17 1
  let reduced := stripZeros 20 found.1 found.2
  ⟨reduced.1, reduced.2 + (Text.natDigits reduced.1).length - 1⟩

/-- The sign, digits and exponent laid out. Values from `10 ^ -5` up to `10 ^ 16` are positional,
with at least one digit on either side of the point; others have a signed exponent. -/
def layout (negative : Bool) (d : Decimal) : List Char :=
  let digits := Text.natDigits d.digits
  let sign := if negative then ['-'] else []
  if 0 ≤ d.leading ∧ d.leading ≤ 15 then
    let whole := d.leading.toNat + 1
    let padded := digits ++ List.replicate (whole - digits.length) '0'
    let fraction := padded.drop whole
    sign ++ padded.take whole ++ '.' :: (if fraction = [] then ['0'] else fraction)
  else if -5 ≤ d.leading ∧ d.leading < 0 then
    sign ++ '0' :: '.' :: (List.replicate (-d.leading - 1).toNat '0' ++ digits)
  else
    let fraction := digits.drop 1
    let point := if fraction = [] then [] else '.' :: fraction
    let mark := if d.leading < 0 then ['e', '-'] else ['e', '+']
    sign ++ digits.take 1 ++ point ++ mark ++ Text.natDigits d.leading.natAbs

/-- The text of a finite number: the shortest decimal that reads back, always with a point or an
exponent. -/
def text (x : Binary64) : List Char :=
  if x.isZero then (if x.isNegative then ['-'] else []) ++ ['0', '.', '0']
  else layout x.isNegative x.shortest

end ContainerFeed.Binary64
