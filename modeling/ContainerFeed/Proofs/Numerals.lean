import ContainerFeed.Proofs.Paths
import ContainerFeed.Text.Numeral

/-!
# Numbers that serve as steps

The steps into a list are written in decimal. Their digits are steps of a path, and an index that
is read from them is the one that they were written for.
-/

namespace ContainerFeed.Text

/-- Every number is written with a digit at least. -/
theorem natDigits_ne_nil (n : Nat) : natDigits n ≠ [] :=
  Nat.toDigits_ne_nil

/-- A number is written with nothing but digits. -/
theorem isDigit_of_mem_natDigits {n : Nat} {c : Char} (h : c ∈ natDigits n) : c.isDigit = true :=
  Nat.isDigit_of_mem_toDigits (by decide) (by decide) h

/-- A written number begins with a digit. -/
theorem natDigits_eq_cons (n : Nat) : ∃ c rest, natDigits n = c :: rest ∧ c.isDigit = true := by
  obtain ⟨c, rest, hcons⟩ := List.exists_cons_of_ne_nil (natDigits_ne_nil n)
  exact ⟨c, rest, hcons, isDigit_of_mem_natDigits (n := n) (by simp [hcons])⟩

/-- Reading digits is what they are worth. -/
theorem foldDigits_eq_ofDigitChars (digits : List Char) (start : Nat) :
    foldDigits start digits = Nat.ofDigitChars 10 digits start := by
  simp only [foldDigits, Nat.ofDigitChars_eq_foldl, digitValue, Nat.mul_comm 10]
  rfl

/-- Written digits are worth the number that they were written for. -/
theorem foldDigits_natDigits (n : Nat) : foldDigits 0 (natDigits n) = n := by
  rw [foldDigits_eq_ofDigitChars, natDigits, Nat.ofDigitChars_ten_toDigits]

/-- Written digits are read as their number. -/
theorem readDigits?_natDigits (n : Nat) : readDigits? (natDigits n) = some n := by
  have hall : (natDigits n).all Char.isDigit = true :=
    List.all_eq_true.mpr fun c hc => isDigit_of_mem_natDigits hc
  simp [readDigits?, natDigits_ne_nil, hall, foldDigits_natDigits]

/-- Only zero is written with a zero in front. -/
theorem head?_natDigits_ne_zero {n : Nat} (h : 0 < n) : (natDigits n).head? ≠ some '0' := by
  induction n using Nat.strongRecOn with
  | ind n ih =>
    by_cases hlt : n < 10
    · have hne : n ≠ 0 := Nat.ne_of_gt h
      simp [natDigits, Nat.toDigits_of_lt_base hlt, hne]
    · have hle : 10 ≤ n := Nat.not_lt.mp hlt
      have hsplit : natDigits n = natDigits (n / 10) ++ [(n % 10).digitChar] :=
        Nat.toDigits_of_base_le (by decide) hle
      have hfront := ih (n / 10) (by omega) (by omega)
      obtain ⟨c, rest, hcons, _⟩ := natDigits_eq_cons (n / 10)
      rw [hcons] at hsplit hfront
      rwa [hsplit]

/-- Written digits are read as their number where a plus sign may stand in front, too. -/
theorem readNat?_natDigits (n : Nat) : readNat? (natDigits n) = some n := by
  rw [← readDigits?_natDigits n]
  unfold readNat?
  split
  · rename_i rest hdigits
    have hplus : '+'.isDigit = true := isDigit_of_mem_natDigits (n := n) (by simp [hdigits])
    exact absurd hplus (by decide)
  · rfl

/-- An unsigned word is recovered from its number. -/
theorem uint64OfNat?_toNat (value : UInt64) : uint64OfNat? value.toNat = some value := by
  have hlt : value.toNat < twoTo 64 := value.toNat_lt
  rw [uint64OfNat?, if_pos hlt, UInt64.ofNat_toNat]

/-- A number that fits an unsigned word is the number of that word. -/
theorem toNat_of_uint64OfNat? {n : Nat} {value : UInt64} (h : uint64OfNat? n = some value) :
    value.toNat = n := by
  unfold uint64OfNat? at h
  split at h
  · rename_i hlt
    rw [← Option.some.inj h, UInt64.toNat_ofNat_of_lt' hlt]
  · cases h

/-- A signed word is recovered from its number. -/
theorem int64OfInt?_toInt (value : Int64) : int64OfInt? value.toInt = some value := by
  have hle : -(twoTo 63 : Int) ≤ value.toInt := value.le_toInt
  have hlt : value.toInt < (twoTo 63 : Int) := value.toInt_lt
  rw [int64OfInt?, if_pos ⟨hle, hlt⟩, Int64.ofInt_toInt]

/-- Different numbers are written differently. -/
theorem natDigits_injective {m n : Nat} (h : natDigits m = natDigits n) : m = n := by
  have hread := readDigits?_natDigits m
  rw [h, readDigits?_natDigits, Option.some.injEq] at hread
  exact hread.symm

/-- The step of a list item. -/
def indexStep (index : Nat) : String :=
  String.ofList (natDigits index)

/-- The index of an item is read back, as long as it fits in a machine word. -/
theorem readIndex?_indexStep {index : Nat} (h : index < twoTo 64) :
    readIndex? (indexStep index) = some index := by
  simp only [readIndex?, indexStep, String.toList_ofList, readUInt64?, readNat?_natDigits,
    Option.bind_some, uint64OfNat?, if_pos h, Option.map_some]
  rw [UInt64.toNat_ofNat_of_lt' h]

/-- Different indices are different steps. -/
theorem indexStep_injective {i j : Nat} (h : indexStep i = indexStep j) : i = j := by
  have hdigits := congrArg String.toList h
  simp only [indexStep, String.toList_ofList] at hdigits
  exact natDigits_injective hdigits

/-- An index that is read is the one that was written. -/
theorem eq_of_readIndex?_indexStep {index found : Nat}
    (h : readIndex? (indexStep index) = some found) : found = index := by
  simp only [readIndex?, indexStep, String.toList_ofList, readUInt64?, readNat?_natDigits,
    Option.bind_some, uint64OfNat?] at h
  split at h
  · rename_i hlt
    simp only [Option.map_some, Option.some.injEq] at h
    exact h.symm.trans (UInt64.toNat_ofNat_of_lt' hlt)
  · simp at h

/-- The step of a list item can be a step of a path. -/
theorem plainStep_indexStep (index : Nat) : Path.PlainStep (indexStep index) := by
  refine ⟨fun hempty => natDigits_ne_nil index ?_, fun hslash => ?_⟩
  · have hlist := congrArg String.toList hempty
    simpa [indexStep] using hlist
  · rw [indexStep, String.toList_ofList] at hslash
    exact absurd (isDigit_of_mem_natDigits hslash) (by decide)

end ContainerFeed.Text
