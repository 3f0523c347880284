import ContainerFeed.Binary64.Reading

/-!
# Scalars

The values at the leaves of a document. Signed and unsigned whole numbers are different
scalars even when they are equal, because a measurement carries one or the other; a served
document shows both as the same number.
-/

namespace ContainerFeed

/-- The value of a document leaf. -/
inductive Scalar where
  | null
  | bool (value : Bool)
  | int (value : Int64)
  | uint (value : UInt64)
  | float (value : Binary64)
  | text (value : String)
  deriving DecidableEq

namespace Scalar

/-- Text as a truth value: one of two words, in lower case. -/
def readBool? (raw : List Char) : Option Bool :=
  if raw = ['t', 'r', 'u', 'e'] then some true
  else if raw = ['f', 'a', 'l', 's', 'e'] then some false
  else none

/-- The scalar that a default written as bare text stands for: null, a truth value, a signed
whole number, an unsigned one, a floating-point number, and only then text. -/
def infer (raw : String) : Scalar :=
  let chars := raw.toList
  if raw = "null" then .null
  else match readBool? chars with
  | some b => .bool b
  | none => match Text.readInt64? chars with
    | some i => .int i
    | none => match Text.readUInt64? chars with
      | some u => .uint u
      | none => match Binary64.read? chars with
        | some f => .float f
        | none => .text raw

/-- The scalar as a reader of the served document sees it: an unsigned number that a signed one
can hold is signed, and a float that is not finite is null. -/
def served : Scalar → Scalar
  | .uint u => ((Text.int64OfInt? u.toNat).map .int).getD (.uint u)
  | .float f => if f.isFinite then .float f else .null
  | s => s

/-- Equality of served values: whole numbers by value, floats numerically and never equal to a
whole number. -/
def servedEqual (a b : Scalar) : Bool :=
  match a.served, b.served with
  | .float x, .float y => x.numericallyEqual y
  | x, y => x == y

end Scalar

end ContainerFeed
