import ContainerFeed.Proofs.KeyedLookup
import ContainerFeed.Text.Octets

/-!
# The order of texts is that of their octets

Texts compare character by character. The octets of a greater character are greater at the first
place where they differ, so texts compare by their octets in the same way. Ascending keys are
therefore ascending as octets, too.
-/

namespace ContainerFeed

namespace Text

/-- The octets of a text are those of its characters. -/
theorem toOctets_eq_flatMap (text : String) :
    toOctets text = text.toList.flatMap String.utf8EncodeChar := by
  have hencode : text.toUTF8 = text.toList.utf8Encode := by
    rw [← String.toByteArray_ofList, String.ofList_toList, String.toUTF8_eq_toByteArray]
  rw [toOctets, hencode, List.utf8Encode, List.data_toByteArray]

/-- Of two lists of one length the first difference decides, whatever follows. -/
theorem append_lt_append {α : Type} [LT α] {xs ys : List α} (hlength : xs.length = ys.length)
    (h : xs < ys) (as bs : List α) : xs ++ as < ys ++ bs := by
  induction xs generalizing ys with
  | nil =>
    rw [List.eq_nil_of_length_eq_zero hlength.symm] at h
    exact absurd h (List.not_lt_nil _)
  | cons x xs ih =>
    cases ys with
    | nil => cases hlength
    | cons y ys =>
      rw [List.cons_append, List.cons_append, List.cons_lt_cons_iff]
      rcases List.cons_lt_cons_iff.mp h with hlt | ⟨heq, hrest⟩
      · exact .inl hlt
      · exact .inr ⟨heq, ih (Nat.succ.inj hlength) hrest⟩

/-- Numbers compare by their digits to the base 64. -/
theorem lt_digits {m n : Nat} (h : m < n) :
    m / 262144 < n / 262144 ∨ m / 262144 = n / 262144 ∧
      (m / 4096 % 64 < n / 4096 % 64 ∨ m / 4096 % 64 = n / 4096 % 64 ∧
        (m / 64 % 64 < n / 64 % 64 ∨ m / 64 % 64 = n / 64 % 64 ∧ m % 64 < n % 64)) := by
  have hsplit (a b : Nat) (hlt : a < b) : a / 64 < b / 64 ∨ a / 64 = b / 64 ∧ a % 64 < b % 64 := by
    omega
  rcases hsplit m n h with hfirst | ⟨hfirst, hlast⟩
  · rcases hsplit _ _ hfirst with hsecond | ⟨hsecond, hlast⟩
    · rcases hsplit _ _ hsecond with hthird | ⟨hthird, hlast⟩ <;> omega
    · omega
  · omega

/-- Of two characters the greater one has the greater octets, whatever follows. -/
theorem utf8EncodeChar_append_lt {c d : Char} (h : c < d) (xs ys : List UInt8) :
    String.utf8EncodeChar c ++ xs < String.utf8EncodeChar d ++ ys := by
  have hlt : c.val.toNat < d.val.toNat := h
  have hbound : d.val.toNat < 1114112 := by
    have hvalid : d.val.toNat.isValidChar := d.valid
    unfold Nat.isValidChar at hvalid
    omega
  have hdigits := lt_digits hlt
  -- The first octet grows with the number of octets, and the others are digits to the base 64.
  simp only [String.utf8EncodeChar]
  split_ifs <;>
    simp only [List.cons_append, List.nil_append, List.cons_lt_cons_iff, UInt8.lt_iff_toNat_lt,
      ← UInt8.toNat_inj, UInt8.toNat_ofNat'] <;>
    simp (disch := omega) only [Nat.mod_eq_of_lt] <;>
    omega

/-- Every character has octets. -/
theorem utf8EncodeChar_ne_nil (c : Char) : String.utf8EncodeChar c ≠ [] := by
  simp only [String.utf8EncodeChar]
  split_ifs <;> simp

/-- Lists of characters compare like the lists of their octets. -/
theorem flatMap_utf8EncodeChar_lt {xs ys : List Char} (h : xs < ys) :
    xs.flatMap String.utf8EncodeChar < ys.flatMap String.utf8EncodeChar := by
  induction xs generalizing ys with
  | nil =>
    cases ys with
    | nil => exact absurd h (List.lt_irrefl _)
    | cons d ys =>
      obtain ⟨octet, rest, hoctets⟩ := List.exists_cons_of_ne_nil (utf8EncodeChar_ne_nil d)
      rw [List.flatMap_cons, hoctets]
      exact List.nil_lt_cons _ _
  | cons c xs ih =>
    cases ys with
    | nil => exact absurd h (List.not_lt_nil _)
    | cons d ys =>
      rw [List.flatMap_cons, List.flatMap_cons]
      rcases List.cons_lt_cons_iff.mp h with hlt | ⟨rfl, hrest⟩
      · exact utf8EncodeChar_append_lt hlt _ _
      · exact List.append_left_lt (ih hrest)

/-- A greater text has greater octets. -/
theorem toOctets_lt {a b : String} (h : a < b) : toOctets a < toOctets b := by
  rw [toOctets_eq_flatMap, toOctets_eq_flatMap]
  exact flatMap_utf8EncodeChar_lt h

end Text

/-- Ascending keys ascend as octets. -/
theorem Keyed.pairwise_toOctets_keys {α : Type} {entries : List (String × α)}
    (h : Keyed.Ascending entries) :
    ((Keyed.keys entries).map Text.toOctets).Pairwise (· < ·) :=
  List.pairwise_map.mpr ((Keyed.ascending_iff_keys.mp h).imp Text.toOctets_lt)

end ContainerFeed
