import ContainerFeed.Json.Lexer
import ContainerFeed.Proofs.Numerals

/-!
# Tokens that are spelt and read

What the spelling of a token begins with decides which token is read, and the reader stops where
the spelling ends. Only a numeral has no end of its own: what follows it must not continue it.
An unsigned number that fits a signed one is read as signed, everything else is read as it was.
-/

namespace ContainerFeed

namespace Json

/-! ## Texts -/

section

variable {c : Char} {rest : List Char}

/-- An escape by one letter is read as its character. -/
theorem scanText?_letter {letter : Char} (h : unescape? letter = some c) (hunit : letter ≠ 'u') :
    scanText? ('\\' :: letter :: rest) = prepend c (scanText? rest) := by
  simp [scanText?, h, hunit]

/-- An escape by four digits is read as its character, surrogates apart. -/
theorem scanText?_unit {a b d e : Char} {unit : Nat} (h : hexUnit? a b d e = some unit)
    (hrange : unit < 0xD800) :
    scanText? ('\\' :: 'u' :: a :: b :: d :: e :: rest) =
      prepend (Char.ofNat unit) (scanText? rest) := by
  rw [scanText?, h]
  simp only [hrange, true_or, if_true]

/-- A character that needs no escape is read as it is. -/
theorem scanText?_plain (hquote : c ≠ '"') (hbackslash : c ≠ '\\') (hplain : ¬ c.toNat < 0x20) :
    scanText? (c :: rest) = prepend c (scanText? rest) := by
  rw [scanText?, if_neg hplain] <;> simp [hquote, hbackslash]

/-- A hexadecimal digit is read as its number. -/
theorem hexDigit?_hexDigit {n : Nat} (h : n < 16) : Text.hexDigit? (hexDigit n) = some n :=
  (by decide : ∀ n < 16, Text.hexDigit? (hexDigit n) = some n) n h

/-- The four digits of a control character are read as its number. -/
theorem hexUnit?_control {n : Nat} (h : n < 0x20) :
    hexUnit? '0' '0' (hexDigit (n / 16)) (hexDigit (n % 16)) = some n := by
  have hzero : Text.hexDigit? '0' = some 0 := by decide
  have hhigh := hexDigit?_hexDigit (n := n / 16) (by omega)
  have hlow := hexDigit?_hexDigit (n := n % 16) (by omega)
  simp only [hexUnit?, hzero, hhigh, hlow, Option.some.injEq]
  omega

/-- A character is read as the one that was spelt, escaped or not. -/
theorem scanText?_spellChar (c : Char) (rest : List Char) :
    scanText? (spellChar c ++ rest) = prepend c (scanText? rest) := by
  unfold spellChar
  split
  case isTrue h => exact scanText?_letter (congrArg some h.symm) (by decide)
  case isFalse hquote =>
  split
  case isTrue h => exact scanText?_letter (congrArg some h.symm) (by decide)
  case isFalse hbackslash =>
  split
  case isTrue h => exact scanText?_letter (congrArg some h.symm) (by decide)
  split
  case isTrue h => exact scanText?_letter (congrArg some h.symm) (by decide)
  split
  case isTrue h => exact scanText?_letter (congrArg some h.symm) (by decide)
  split
  case isTrue h => exact scanText?_letter (congrArg some h.symm) (by decide)
  split
  case isTrue h => exact scanText?_letter (congrArg some h.symm) (by decide)
  split
  case isTrue hcontrol =>
    have hunit := hexUnit?_control hcontrol
    exact (scanText?_unit hunit (by omega)).trans (by rw [Char.ofNat_toNat]; rfl)
  case isFalse hplain => exact scanText?_plain hquote hbackslash hplain

end

/-- A text is read up to the quotation mark that ends it. -/
theorem scanText?_flatMap_spellChar (chars rest : List Char) :
    scanText? (chars.flatMap spellChar ++ '"' :: rest) = some (chars, rest) := by
  induction chars with
  | nil => rw [List.flatMap_nil, List.nil_append, scanText?]
  | cons c chars ih =>
    rw [List.flatMap_cons, List.append_assoc, scanText?_spellChar, ih]
    rfl

/-! ## Whole numbers -/

/-- Written digits have no superfluous leading zero. -/
theorem isPlainWhole_natDigits (n : Nat) : isPlainWhole (Text.natDigits n) = true := by
  cases n with
  | zero => decide
  | succ n =>
    have hne := Text.natDigits_ne_nil (n + 1)
    have hzero := Text.head?_natDigits_ne_zero n.succ_pos
    simp [isPlainWhole, hne, hzero]

section

variable {n : Nat} {i : Int64}

/-- Digits of a number that fits a signed word are worth a signed number. -/
theorem value?_natDigits (h : Text.int64OfInt? n = some i) :
    Numeral.value? ⟨false, Text.natDigits n, [], none⟩ = some (.int i) := by
  simp [Numeral.value?, Text.foldDigits_natDigits, h]

/-- Digits of a number that fits an unsigned word only are worth an unsigned number. -/
theorem value?_natDigits_unsigned (hsigned : Text.int64OfInt? n = none) {u : UInt64}
    (h : Text.uint64OfNat? n = some u) :
    Numeral.value? ⟨false, Text.natDigits n, [], none⟩ = some (.uint u) := by
  simp [Numeral.value?, Text.foldDigits_natDigits, hsigned, h]

/-- Digits behind a minus sign are worth a negative number, where it fits. -/
theorem value?_natDigits_negative (hpos : 0 < n) (h : Text.int64OfInt? (-(n : Int)) = some i) :
    Numeral.value? ⟨true, Text.natDigits n, [], none⟩ = some (.int i) := by
  have hne : n ≠ 0 := Nat.ne_of_gt hpos
  simp [Numeral.value?, Text.foldDigits_natDigits, hne, h]

end

/-- The text does not continue a numeral that stands before it. -/
def EndsNumeral : List Char → Prop
  | [] => True
  | c :: _ => c.isDigit = false ∧ c ≠ '.' ∧ c ≠ 'e' ∧ c ≠ 'E'

section

variable {rest : List Char} (hrest : EndsNumeral rest)

include hrest

/-- Where a numeral ends, its digits end. -/
theorem leadingDigits_append {digits : List Char} (hdigits : ∀ c ∈ digits, c.isDigit = true) :
    leadingDigits (digits ++ rest) = digits ∧ afterDigits (digits ++ rest) = rest := by
  rw [leadingDigits, afterDigits, List.takeWhile_append_of_pos hdigits,
    List.dropWhile_append_of_pos hdigits]
  cases rest with
  | nil => simp
  | cons c rest => simp [hrest.1]

/-- Where a numeral ends, there is no fraction. -/
theorem scanFraction?_of_ends : scanFraction? rest = some ([], rest) := by
  unfold scanFraction?
  split
  · exact absurd rfl hrest.2.1
  · rfl

/-- Where a numeral ends, there is no exponent. -/
theorem scanExponent?_of_ends : scanExponent? rest = some (none, rest) := by
  unfold scanExponent?
  split
  · exact absurd rfl hrest.2.2.1
  · exact absurd rfl hrest.2.2.2
  · rfl

/-- Written digits are scanned as a numeral that is nothing but whole. -/
theorem scanUnsigned?_natDigits (negative : Bool) (n : Nat) :
    scanUnsigned? negative (Text.natDigits n ++ rest) =
      some (⟨negative, Text.natDigits n, [], none⟩, rest) := by
  obtain ⟨hleading, hafter⟩ :=
    leadingDigits_append hrest fun _ => Text.isDigit_of_mem_natDigits (n := n)
  have hwhole : scanWhole? (Text.natDigits n ++ rest) = some (Text.natDigits n, rest) := by
    rw [scanWhole?, hleading, hafter, if_pos (isPlainWhole_natDigits n)]
  simp [scanUnsigned?, hwhole, scanFraction?_of_ends hrest, scanExponent?_of_ends hrest]

/-- Written digits are read as a number that is signed where it fits. -/
theorem scanNumber?_natDigits (n : Nat) :
    scanNumber? (Text.natDigits n ++ rest) =
      (Numeral.value? ⟨false, Text.natDigits n, [], none⟩).map fun value => (value, rest) := by
  have hunsigned := scanUnsigned?_natDigits hrest false n
  unfold scanNumber? scanNumeral?
  split
  case h_1 tail hminus =>
    obtain ⟨c, digits, hcons, hdigit⟩ := Text.natDigits_eq_cons n
    rw [hcons] at hminus
    obtain ⟨rfl, _⟩ := List.cons.inj hminus
    exact absurd hdigit (by decide)
  case h_2 => rw [hunsigned, Option.bind_some]

/-- A written unsigned number is read as it is served. -/
theorem scanNumber?_uint (u : UInt64) :
    scanNumber? (Text.natDigits u.toNat ++ rest) = some ((Scalar.uint u).served, rest) := by
  rw [scanNumber?_natDigits hrest, Scalar.served]
  cases hsigned : Text.int64OfInt? u.toNat with
  | some i => rw [value?_natDigits hsigned, Option.map_some, Option.map_some, Option.getD_some]
  | none =>
    have hvalue := value?_natDigits_unsigned hsigned (Text.uint64OfNat?_toNat u)
    rw [hvalue, Option.map_some, Option.map_none, Option.getD_none]

/-- A written signed number is read as it is. -/
theorem scanNumber?_int (i : Int64) :
    scanNumber? (Text.intDigits i.toInt ++ rest) = some (.int i, rest) := by
  have hfits := Text.int64OfInt?_toInt i
  cases hvalue : i.toInt with
  | ofNat n =>
    rw [hvalue] at hfits
    rw [Text.intDigits, scanNumber?_natDigits hrest, value?_natDigits hfits, Option.map_some]
  | negSucc n =>
    rw [hvalue] at hfits
    have hvalue := value?_natDigits_negative n.succ_pos hfits
    have hscan := scanUnsigned?_natDigits hrest true (n + 1)
    rw [Text.intDigits, List.cons_append, scanNumber?, scanNumeral?, hscan, Option.bind_some,
      hvalue, Option.map_some]

end

/-! ## Tokens -/

/-- What begins like a number begins like no other token. -/
theorem scanToken?_number {c : Char} (h : c.isDigit = true ∨ c = '-') (rest : List Char) :
    scanToken? (c :: rest) =
      (scanNumber? (c :: rest)).map fun found => (.scalar found.1, found.2) := by
  rw [scanToken?]
  all_goals
    intro tail heq
    obtain ⟨rfl, _⟩ := List.cons.inj heq
    revert h
    decide

/-- Written digits begin a number. -/
theorem scanToken?_natDigits (n : Nat) (rest : List Char) :
    scanToken? (Text.natDigits n ++ rest) =
      (scanNumber? (Text.natDigits n ++ rest)).map fun found => (.scalar found.1, found.2) := by
  obtain ⟨c, digits, hcons, hdigit⟩ := Text.natDigits_eq_cons n
  rw [hcons, List.cons_append, scanToken?_number (.inl hdigit)]

/-- Written digits with a sign begin a number. -/
theorem scanToken?_intDigits (i : Int) (rest : List Char) :
    scanToken? (Text.intDigits i ++ rest) =
      (scanNumber? (Text.intDigits i ++ rest)).map fun found => (.scalar found.1, found.2) := by
  cases i with
  | ofNat n => exact scanToken?_natDigits n rest
  | negSucc n =>
    rw [Text.intDigits, List.cons_append, scanToken?_number (.inr rfl)]

end Json

/-- Whether a scalar is a floating-point number. -/
def Scalar.IsFloat : Scalar → Prop
  | .float _ => True
  | _ => False

instance (value : Scalar) : Decidable value.IsFloat :=
  match value with
  | .float _ => .isTrue trivial
  | .null | .bool _ | .int _ | .uint _ | .text _ => .isFalse id

namespace Json

/-- A scalar is read as a reader of the served text sees it. -/
theorem scanToken?_spellScalar {value : Scalar} (hfloat : ¬ value.IsFloat) {rest : List Char}
    (hrest : EndsNumeral rest) :
    scanToken? (spellScalar value ++ rest) = some (.scalar value.served, rest) := by
  cases value with
  | null => rfl
  | bool truth => cases truth <;> rfl
  | int i => rw [spellScalar, scanToken?_intDigits, scanNumber?_int hrest]; rfl
  | uint u => rw [spellScalar, scanToken?_natDigits, scanNumber?_uint hrest, Option.map_some]
  | float x => exact absurd trivial hfloat
  | text text =>
    have hread := scanText?_flatMap_spellChar text.toList rest
    rw [spellScalar, spellText, List.cons_append, List.append_assoc, List.singleton_append,
      scanToken?, hread, Option.map_some, String.ofList_toList]
    rfl

/-- What separates tokens begins none. -/
theorem scanToken?_gap {c : Char} (h : isGap c = true) (rest : List Char) :
    scanToken? (c :: rest) = none := by
  simp only [isGap, Bool.or_eq_true, beq_iff_eq] at h
  rcases h with ((rfl | rfl) | rfl) | rfl <;> rfl

/-- The tokens of a text are its first token and those of the rest. -/
theorem lex_of_scanToken? {text rest : List Char} {token : Token} {tokens : List Token}
    (h : scanToken? text = some (token, rest)) (hrest : lex rest = some tokens) :
    lex text = some (token :: tokens) := by
  cases text with
  | nil => exact absurd (length_of_scanToken? h) (by simp)
  | cons c tail =>
    have hgap : ¬ isGap c = true := fun hgap => by simp [scanToken?_gap hgap] at h
    rw [lex, if_neg hgap]
    split
    · rename_i hnone
      simp [h] at hnone
    · rename_i found after hfound
      obtain ⟨rfl, rfl⟩ : token = found ∧ rest = after := by simpa [h] using hfound
      simp [hrest]

end Json

end ContainerFeed
