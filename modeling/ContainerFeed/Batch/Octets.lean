import ContainerFeed.Power

/-!
# Numbers as octets

Numbers of a fixed width are written least significant octet first. Negative ones are taken
modulo the range of the width.
-/

namespace ContainerFeed.Batch

/-- The octets of a number, least significant first. -/
def littleEndian : Nat → Nat → List UInt8
  | 0, _ => []
  | width + 1, n => UInt8.ofNat (n % 256) :: littleEndian width (n / 256)

/-- The number that octets spell. -/
def ofLittleEndian : List UInt8 → Nat
  | [] => 0
  | octet :: rest => octet.toNat + 256 * ofLittleEndian rest

/-- The octets of a signed number. -/
def littleEndianSigned (width : Nat) (n : Int) : List UInt8 :=
  littleEndian width (n % (twoTo (8 * width) : Int)).toNat

/-- The signed number with the residue of an unsigned one. -/
def toSigned (width : Nat) (n : Nat) : Int :=
  Int.bmod n (twoTo (8 * width))

/-- A number takes as many octets as its width says. -/
@[simp]
theorem length_littleEndian (width n : Nat) : (littleEndian width n).length = width := by
  induction width generalizing n with
  | zero => rfl
  | succ width ih => simp [littleEndian, ih]

/-- A number that has room in its octets is read back from them. -/
theorem ofLittleEndian_littleEndian {width n : Nat} (h : n < twoTo (8 * width)) :
    ofLittleEndian (littleEndian width n) = n := by
  induction width generalizing n with
  | zero =>
    have hn : n = 0 := Nat.lt_one_iff.1 h
    simp [littleEndian, ofLittleEndian, hn]
  | succ width ih =>
    have hdiv : n / 256 < twoTo (8 * width) := by
      rw [Nat.mul_succ, twoTo_add, Nat.mul_comm] at h
      exact Nat.div_lt_of_lt_mul h
    simp only [littleEndian, ofLittleEndian, ih hdiv]
    have hmod : (UInt8.ofNat (n % 256)).toNat = n % 256 := by simp
    omega

end ContainerFeed.Batch
