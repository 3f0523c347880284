import ContainerFeed.Proofs.Json.Reading
import ContainerFeed.Proofs.Text.Trimming

/-!
# Literals in two readers

A text without white space around it may be read as a document, or as a default that is written as
bare text. Where the document is null, a truth value or a whole number that fits 64 bits, both
readings agree. A document that is a scalar is one token, and the token takes all of the text.
-/

namespace ContainerFeed

/-- Null, a truth value or a whole number. -/
def Scalar.IsLiteral : Scalar → Prop
  | .null | .bool _ | .int _ | .uint _ => True
  | .float _ | .text _ => False

namespace Json

/-! ## Documents of one token -/

/-- The document will not be a scalar: a container is open or has been read. -/
def Expecting.NoLeaf : Expecting → Prop
  | .value outer => outer ≠ []
  | .nothing document => document.scalar? = none
  | _ => True

/-- A finished container, or a leaf inside one, leaves no bare leaf behind. -/
theorem noLeaf_complete {node : Node} {outer : List Frame}
    (h : outer = [] → node.scalar? = none) : (complete node outer).NoLeaf := by
  cases outer with
  | nil => exact h rfl
  | cons frame outer => cases frame <;> trivial

/-- The first token of a value inside a container leaves no bare leaf behind. -/
theorem noLeaf_stepValue {outer : List Frame} {token : Token} {next : Expecting}
    (houter : outer ≠ []) (h : stepValue outer token = some next) : next.NoLeaf := by
  rcases stepValue_cases h with ⟨value, _, rfl⟩ | ⟨_, rfl | rfl⟩
  · exact noLeaf_complete fun hnil => absurd hnil houter
  · trivial
  · trivial

/-- No token makes a bare leaf of what is no leaf so far. -/
theorem noLeaf_step {expecting next : Expecting} {token : Token} (hnow : expecting.NoLeaf)
    (h : step expecting token = some next) : next.NoLeaf := by
  unfold step at h
  split at h
  case h_1 => exact noLeaf_stepValue hnow h
  case h_3 => exact noLeaf_stepValue (List.cons_ne_nil _ _) h
  -- A container ends.
  case h_2 | h_4 | h_9 | h_11 =>
    obtain rfl := Option.some.inj h
    exact noLeaf_complete fun _ => rfl
  -- A value of a container comes next.
  case h_7 | h_8 =>
    obtain rfl := Option.some.inj h
    exact List.cons_ne_nil _ _
  case h_5 | h_6 | h_10 =>
    obtain rfl := Option.some.inj h
    trivial
  case h_12 => cases h

/-- What begins as a container does not end as a leaf. -/
theorem noLeaf_run {expecting last : Expecting} {tokens : List Token} (hnow : expecting.NoLeaf)
    (h : run expecting tokens = some last) : last.NoLeaf :=
  run_keeps (fun _ _ _ _ => noLeaf_step) hnow h

/-- A document that is a scalar is one token. -/
theorem eq_singleton_of_ofTokens? {tokens : List Token} {value : Scalar}
    (h : ofTokens? tokens = some (.leaf value)) : tokens = [.scalar value] := by
  have hrun := run_of_ofTokens? h
  cases tokens with
  | nil => simp [run] at hrun
  | cons token rest =>
    obtain ⟨next, hnext, hrest⟩ := Option.bind_eq_some_iff.mp hrun
    rcases stepValue_cases hnext with ⟨first, rfl, rfl⟩ | ⟨_, hopen⟩
    · cases rest with
      | nil => simpa [run, complete] using hrest
      | cons second rest => simp [run, step, complete] at hrest
    · have hnoLeaf : next.NoLeaf := by rcases hopen with rfl | rfl <;> trivial
      have hlast : (Node.leaf value).scalar? = none := noLeaf_run hnoLeaf hrest
      simp [Node.scalar?] at hlast

/-! ## Numerals of digits only -/

section

variable {text rest digits : List Char}

/-- Without a fraction nothing is taken. -/
theorem eq_of_scanFraction? (h : scanFraction? text = some ([], rest)) : rest = text := by
  unfold scanFraction? at h
  split at h
  · split at h
    · simp at h
    · rename_i hdigits
      simp [hdigits] at h
  · simpa using h.symm

/-- Digits of an exponent make an exponent. -/
theorem ne_none_of_scanExponentDigits? {negative : Bool} {exponent : Option (Bool × List Char)}
    (h : scanExponentDigits? negative text = some (exponent, rest)) : exponent ≠ none := by
  unfold scanExponentDigits? at h
  split at h
  · simp at h
  · obtain ⟨rfl, _⟩ : some (negative, leadingDigits text) = exponent ∧ afterDigits text = rest := by
      simpa using h
    simp

/-- An exponent with its sign is one. -/
theorem ne_none_of_scanSignedExponent? {exponent : Option (Bool × List Char)}
    (h : scanSignedExponent? text = some (exponent, rest)) : exponent ≠ none := by
  unfold scanSignedExponent? at h
  split at h <;> exact ne_none_of_scanExponentDigits? h

/-- Without an exponent nothing is taken. -/
theorem eq_of_scanExponent? (h : scanExponent? text = some (none, rest)) : rest = text := by
  unfold scanExponent? at h
  split at h
  · exact absurd rfl (ne_none_of_scanSignedExponent? h)
  · exact absurd rfl (ne_none_of_scanSignedExponent? h)
  · simpa using h.symm

/-- Some digits, at least one. -/
def IsDigits (digits : List Char) : Prop :=
  digits ≠ [] ∧ digits.all Char.isDigit = true

/-- A numeral without a fraction and an exponent is written in digits only. -/
theorem eq_append_of_scanUnsigned? {negative : Bool} {numeral : Numeral}
    (h : scanUnsigned? negative text = some (numeral, rest)) (hfraction : numeral.fraction = [])
    (hexponent : numeral.exponent = none) :
    numeral.negative = negative ∧ text = numeral.whole ++ rest ∧ IsDigits numeral.whole := by
  obtain ⟨⟨whole, afterWhole⟩, hwhole, h⟩ := Option.bind_eq_some_iff.mp h
  obtain ⟨⟨fraction, afterFraction⟩, hscanned, h⟩ := Option.bind_eq_some_iff.mp h
  obtain ⟨⟨exponent, afterExponent⟩, hpower, h⟩ := Option.map_eq_some_iff.mp h
  obtain ⟨rfl, rfl⟩ : ⟨negative, whole, fraction, exponent⟩ = numeral ∧ afterExponent = rest := by
    simpa using h
  obtain rfl : fraction = [] := hfraction
  obtain rfl : exponent = none := hexponent
  obtain rfl := eq_of_scanFraction? hscanned
  obtain rfl := eq_of_scanExponent? hpower
  unfold scanWhole? at hwhole
  split at hwhole
  · rename_i hplain
    simp only [Option.some.injEq, Prod.mk.injEq] at hwhole
    obtain ⟨rfl, rfl⟩ := hwhole
    refine ⟨rfl, (List.takeWhile_append_dropWhile).symm, ?_, List.all_takeWhile⟩
    have hne : leadingDigits text ≠ [] := by simp_all [isPlainWhole]
    exact hne
  · simp at hwhole

end

/-- A numeral that is read as a float spells no literal. -/
theorem not_isLiteral_of_float? {numeral : Numeral} {value : Scalar}
    (h : numeral.float? = some value) : ¬ value.IsLiteral := by
  obtain ⟨magnitude, _, rfl⟩ := Option.map_eq_some_iff.mp h
  exact id

/-- A numeral that is a whole number has neither a fraction nor an exponent. It is signed where it
fits, and else unsigned. -/
theorem whole_of_value? {numeral : Numeral} {value : Scalar} (h : numeral.value? = some value)
    (hliteral : value.IsLiteral) :
    numeral.fraction = [] ∧ numeral.exponent = none ∧
      if numeral.negative then
        ∃ i, Text.int64OfInt? (-(Text.foldDigits 0 numeral.whole : Int)) = some i ∧ value = .int i
      else
        (∃ i, Text.int64OfInt? (Text.foldDigits 0 numeral.whole) = some i ∧ value = .int i) ∨
        Text.int64OfInt? (Text.foldDigits 0 numeral.whole) = none ∧
          ∃ u, Text.uint64OfNat? (Text.foldDigits 0 numeral.whole) = some u ∧ value = .uint u := by
  have hfloat : numeral.float? ≠ some value := fun h => not_isLiteral_of_float? h hliteral
  unfold Numeral.value? at h
  split at h
  · exact absurd h hfloat
  · rename_i hparts
    obtain ⟨hfraction, hexponent⟩ := not_or.mp hparts
    refine ⟨not_not.mp hfraction, not_not.mp hexponent, ?_⟩
    split
    · rename_i hnegative
      simp only [if_pos hnegative] at h
      split at h
      · exact absurd h hfloat
      · split at h
        · rename_i i hi
          exact ⟨i, hi, (Option.some.inj h).symm⟩
        · exact absurd h hfloat
    · rename_i hnegative
      simp only [if_neg hnegative] at h
      split at h
      · rename_i i hi
        exact .inl ⟨i, hi, (Option.some.inj h).symm⟩
      · rename_i hnone
        split at h
        · rename_i u hu
          exact .inr ⟨hnone, u, hu, (Option.some.inj h).symm⟩
        · exact absurd h hfloat

/-! ## Bare text -/

section

variable {digits : List Char}

/-- Digits behind a minus sign are read as the negative number, where it fits. -/
theorem readInt64?_neg (h : IsDigits digits) :
    Text.readInt64? ('-' :: digits) = Text.int64OfInt? (-(Text.foldDigits 0 digits : Int)) := by
  simp [Text.readInt64?, Text.readInt?, Text.readDigits?, h.1, h.2]

/-- Digits are read as the number that they are worth. -/
theorem readNat?_of_isDigits (h : IsDigits digits) :
    Text.readNat? digits = some (Text.foldDigits 0 digits) := by
  have hread : Text.readDigits? digits = some (Text.foldDigits 0 digits) := by
    rw [Text.readDigits?, if_pos ⟨h.1, h.2⟩]
  unfold Text.readNat?
  split
  · have hplus := (List.all_eq_true.mp h.2) '+' List.mem_cons_self
    exact absurd hplus (by decide)
  · exact hread

/-- Digits are read as the signed number that they are worth, where it fits. -/
theorem readInt64?_of_isDigits (h : IsDigits digits) :
    Text.readInt64? digits = Text.int64OfInt? (Text.foldDigits 0 digits) := by
  have hread : Text.readInt? digits = some (Text.foldDigits 0 digits : Int) := by
    unfold Text.readInt?
    split
    · have hminus := (List.all_eq_true.mp h.2) '-' List.mem_cons_self
      exact absurd hminus (by decide)
    · rw [readNat?_of_isDigits h]
      rfl
  rw [Text.readInt64?, hread, Option.bind_some]

/-- Digits are read as the unsigned number that they are worth, where it fits. -/
theorem readUInt64?_of_isDigits (h : IsDigits digits) :
    Text.readUInt64? digits = Text.uint64OfNat? (Text.foldDigits 0 digits) := by
  rw [Text.readUInt64?, readNat?_of_isDigits h, Option.bind_some]

end

section

variable {c : Char} {rest : List Char}

/-- Text that does not begin like a word is no word. -/
theorem no_word_of_head (hc : c ∉ ['n', 't', 'f']) (rest : List Char) :
    String.ofList (c :: rest) ≠ "null" ∧ Scalar.readBool? (c :: rest) = none := by
  constructor
  · intro hnull
    have hlist : String.toList (String.ofList (c :: rest)) = ['n', 'u', 'l', 'l'] :=
      congrArg String.toList hnull
    rw [String.toList_ofList] at hlist
    obtain ⟨rfl, _⟩ := List.cons.inj hlist
    simp at hc
  · unfold Scalar.readBool?
    simp_all

/-- A text that is read as a signed number is taken as one. -/
theorem infer_of_readInt64? (hc : c ∉ ['n', 't', 'f']) {i : Int64}
    (h : Text.readInt64? (c :: rest) = some i) :
    Scalar.infer (String.ofList (c :: rest)) = .int i := by
  obtain ⟨hnull, hbool⟩ := no_word_of_head hc rest
  simp only [Scalar.infer, if_neg hnull, String.toList_ofList, hbool, h]

/-- A text that is read as an unsigned number only is taken as one. -/
theorem infer_of_readUInt64? (hc : c ∉ ['n', 't', 'f']) {u : UInt64}
    (hint : Text.readInt64? (c :: rest) = none) (h : Text.readUInt64? (c :: rest) = some u) :
    Scalar.infer (String.ofList (c :: rest)) = .uint u := by
  obtain ⟨hnull, hbool⟩ := no_word_of_head hc rest
  simp only [Scalar.infer, if_neg hnull, String.toList_ofList, hbool, hint, h]

end

/-- A numeral that is a whole number is what its text stands for. -/
theorem infer_of_value? {numeral : Numeral} {value : Scalar} (h : numeral.value? = some value)
    (hliteral : value.IsLiteral) (hdigits : IsDigits numeral.whole) :
    Scalar.infer (String.ofList
      (if numeral.negative then '-' :: numeral.whole else numeral.whole)) = value := by
  obtain ⟨_, _, hwhole⟩ := whole_of_value? h hliteral
  split
  · rename_i hnegative
    rw [if_pos hnegative] at hwhole
    obtain ⟨i, hi, rfl⟩ := hwhole
    exact infer_of_readInt64? (by decide) ((readInt64?_neg hdigits).trans hi)
  · rename_i hnegative
    rw [if_neg hnegative] at hwhole
    obtain ⟨c, rest, hcons⟩ := List.exists_cons_of_ne_nil hdigits.1
    have hdigit : c.isDigit = true :=
      List.all_eq_true.mp hdigits.2 c (hcons ▸ List.mem_cons_self)
    have hc : c ∉ ['n', 't', 'f'] := by
      simp only [List.mem_cons, List.not_mem_nil, or_false]
      rintro (rfl | rfl | rfl) <;> exact absurd hdigit (by decide)
    have hint := readInt64?_of_isDigits hdigits
    have huint := readUInt64?_of_isDigits hdigits
    rw [hcons] at hint huint hwhole ⊢
    rcases hwhole with ⟨i, hi, rfl⟩ | ⟨hnone, u, hu, rfl⟩
    · exact infer_of_readInt64? hc (hint.trans hi)
    · exact infer_of_readUInt64? hc (hint.trans hnone) (huint.trans hu)

/-- The characters that a number is read from are taken as that number on their own. -/
theorem exists_of_scanNumber? {text rest : List Char} {value : Scalar}
    (h : scanNumber? text = some (value, rest)) (hliteral : value.IsLiteral) :
    ∃ front, text = front ++ rest ∧ Scalar.infer (String.ofList front) = value := by
  obtain ⟨⟨numeral, after⟩, hnumeral, h⟩ := Option.bind_eq_some_iff.mp h
  obtain ⟨found, hvalue, h⟩ := Option.map_eq_some_iff.mp h
  obtain ⟨rfl, rfl⟩ : found = value ∧ after = rest := by simpa using h
  obtain ⟨hfraction, hexponent, _⟩ := whole_of_value? hvalue hliteral
  unfold scanNumeral? at hnumeral
  split at hnumeral
  · obtain ⟨hnegative, htext, hdigits⟩ := eq_append_of_scanUnsigned? hnumeral hfraction hexponent
    have hinfer := infer_of_value? hvalue hliteral hdigits
    rw [if_pos hnegative] at hinfer
    exact ⟨_, congrArg ('-' :: ·) htext, hinfer⟩
  · obtain ⟨hnegative, htext, hdigits⟩ := eq_append_of_scanUnsigned? hnumeral hfraction hexponent
    have hinfer := infer_of_value? hvalue hliteral hdigits
    rw [if_neg (by simp [hnegative])] at hinfer
    exact ⟨_, htext, hinfer⟩

/-- A literal at the beginning of a text is what its own text stands for. -/
theorem exists_of_scanToken? {text rest : List Char} {value : Scalar}
    (h : scanToken? text = some (.scalar value, rest)) (hliteral : value.IsLiteral) :
    ∃ front, text = front ++ rest ∧ Scalar.infer (String.ofList front) = value := by
  unfold scanToken? at h
  split at h
  case h_7 tail =>
    obtain ⟨_, _, h⟩ := Option.map_eq_some_iff.mp h
    obtain ⟨rfl, _⟩ : Scalar.text _ = value ∧ _ := by simpa using h
    exact hliteral.elim
  case h_8 tail =>
    obtain ⟨rfl, rfl⟩ : Scalar.null = value ∧ tail = rest := by simpa using h
    exact ⟨"null".toList, rfl, by decide +kernel⟩
  case h_9 tail =>
    obtain ⟨rfl, rfl⟩ : Scalar.bool true = value ∧ tail = rest := by simpa using h
    exact ⟨"true".toList, rfl, by decide +kernel⟩
  case h_10 tail =>
    obtain ⟨rfl, rfl⟩ : Scalar.bool false = value ∧ tail = rest := by simpa using h
    exact ⟨"false".toList, rfl, by decide +kernel⟩
  case h_11 =>
    obtain ⟨found, hnumber, h⟩ := Option.map_eq_some_iff.mp h
    obtain ⟨rfl, rfl⟩ : found.1 = value ∧ found.2 = rest := by simpa using h
    exact exists_of_scanNumber? hnumber hliteral
  all_goals simp at h

/-! ## Texts of one token -/

/-- Whatever separates tokens is blank. -/
theorem isBlank_of_isGap {c : Char} (h : isGap c = true) : Text.isBlank c = true := by
  refine Text.isBlank_of_isWhitespace c ?_
  simp only [isGap, Bool.or_eq_true, beq_iff_eq] at h
  rcases h with ((rfl | rfl) | rfl) | rfl <;> decide

/-- A text without tokens is white space. -/
theorem isGap_of_lex_eq_nil {text : List Char} (h : lex text = some []) :
    ∀ c ∈ text, isGap c = true := by
  induction text with
  | nil => simp
  | cons c rest ih =>
    rw [lex] at h
    split at h
    · rename_i hgap
      exact List.forall_mem_cons.mpr ⟨hgap, ih h⟩
    · split at h
      · simp at h
      · split at h <;> simp at h

/-- The token of a trimmed text takes all of it. -/
theorem scanToken?_of_lex {text : List Char} {token : Token} (htrim : Text.trim text = text)
    (h : lex text = some [token]) :
    ∃ rest, scanToken? text = some (token, rest) ∧ ∀ c ∈ rest, isGap c = true := by
  cases text with
  | nil => simp [lex] at h
  | cons c rest =>
    have hblank := Text.isBlank_of_trim_cons htrim
    have hgap : ¬ isGap c = true := fun hgap => by simp [isBlank_of_isGap hgap] at hblank
    rw [lex, if_neg hgap] at h
    split at h
    · simp at h
    · rename_i found after hfound
      split at h
      · simp at h
      · rename_i tokens htokens
        obtain ⟨rfl, rfl⟩ : found = token ∧ tokens = [] := by simpa using h
        exact ⟨after, hfound, isGap_of_lex_eq_nil htokens⟩

end Json

/-- A trimmed text that is read as the document of a literal stands for the same literal when it is
read as bare text. -/
theorem Scalar.infer_of_parse? {raw : String} {value : Scalar}
    (htrim : Text.trim raw.toList = raw.toList) (h : Node.parse? raw = some (.leaf value))
    (hliteral : value.IsLiteral) : Scalar.infer raw = value := by
  obtain ⟨tokens, hlex, htokens⟩ := Option.bind_eq_some_iff.mp h
  obtain rfl := Json.eq_singleton_of_ofTokens? htokens
  obtain ⟨rest, hscan, hgaps⟩ := Json.scanToken?_of_lex htrim hlex
  obtain ⟨front, hsplit, hinfer⟩ := Json.exists_of_scanToken? hscan hliteral
  rcases List.eq_nil_or_concat rest with rfl | ⟨init, last, rfl⟩
  · rw [List.append_nil] at hsplit
    rwa [← hsplit, String.ofList_toList] at hinfer
  · rw [hsplit, List.concat_eq_append, ← List.append_assoc] at htrim
    have hlast := Json.isBlank_of_isGap (hgaps last (by simp))
    rw [Text.isBlank_of_trim_concat htrim] at hlast
    cases hlast

end ContainerFeed
