import ContainerFeed.Json.Number
import ContainerFeed.Json.Token

/-!
# From document text to tokens

Each scanner takes a token, or the inside of one, from the beginning of the text and returns the
rest, which is shorter. White space between tokens is the space, the tab and the two line ends.
-/

namespace ContainerFeed.Json

/-- White space between tokens. -/
def isGap (c : Char) : Bool :=
  c == ' ' || c == '\t' || c == '\n' || c == '\r'

/-- The value of four hexadecimal digits. -/
def hexUnit? (a b c d : Char) : Option Nat :=
  match Text.hexDigit? a, Text.hexDigit? b, Text.hexDigit? c, Text.hexDigit? d with
  | some a, some b, some c, some d => some (((a * 16 + b) * 16 + c) * 16 + d)
  | _, _, _, _ => none

/-- The character that a letter after a backslash stands for. -/
def unescape? : Char → Option Char
  | '"' => some '"'
  | '\\' => some '\\'
  | '/' => some '/'
  | 'b' => some '\x08'
  | 'f' => some '\x0c'
  | 'n' => some '\n'
  | 'r' => some '\r'
  | 't' => some '\t'
  | _ => none

/-- Puts a character in front of what was read of a text. -/
def prepend (c : Char) : Option (List Char × List Char) → Option (List Char × List Char)
  | some (chars, rest) => some (c :: chars, rest)
  | none => none

/-- The character of a leading and a trailing half of a surrogate pair. -/
def joinSurrogates (leading trailing : Nat) : Char :=
  Char.ofNat (0x10000 + (leading - 0xD800) * 0x400 + (trailing - 0xDC00))

/-- Reads the characters up to the closing quotation mark. A control character has to be
escaped, and half a surrogate pair cannot stand alone. -/
def scanText? : List Char → Option (List Char × List Char)
  | [] => none
  | '"' :: rest => some ([], rest)
  | '\\' :: 'u' :: a :: b :: c :: d :: rest =>
    match hexUnit? a b c d with
    | none => none
    | some unit =>
      if unit < 0xD800 ∨ 0xDFFF < unit then prepend (Char.ofNat unit) (scanText? rest)
      else if 0xDBFF < unit then none
      else match rest with
        | '\\' :: 'u' :: e :: f :: g :: h :: rest =>
          match hexUnit? e f g h with
          | none => none
          | some trailing =>
            if 0xDC00 ≤ trailing ∧ trailing ≤ 0xDFFF then
              prepend (joinSurrogates unit trailing) (scanText? rest)
            else none
        | _ => none
  | '\\' :: c :: rest =>
    match unescape? c with
    | none => none
    | some c => prepend c (scanText? rest)
  | c :: rest => if c.toNat < 0x20 then none else prepend c (scanText? rest)

/-- Reads a token at the beginning of a text. -/
def scanToken? : List Char → Option (Token × List Char)
  | '\x7b' :: rest => some (.openMap, rest)
  | '\x7d' :: rest => some (.closeMap, rest)
  | '[' :: rest => some (.openList, rest)
  | ']' :: rest => some (.closeList, rest)
  | ',' :: rest => some (.comma, rest)
  | ':' :: rest => some (.colon, rest)
  | '"' :: rest => (scanText? rest).map fun found =>
      (.scalar (.text (String.ofList found.1)), found.2)
  | 'n' :: 'u' :: 'l' :: 'l' :: rest => some (.scalar .null, rest)
  | 't' :: 'r' :: 'u' :: 'e' :: rest => some (.scalar (.bool true), rest)
  | 'f' :: 'a' :: 'l' :: 's' :: 'e' :: rest => some (.scalar (.bool false), rest)
  | text => (scanNumber? text).map fun found => (.scalar found.1, found.2)

/-- A character is put in front of what has been found, if anything has. -/
theorem prepend_eq_some_iff {c : Char} {found : Option (List Char × List Char)}
    {chars rest : List Char} :
    prepend c found = some (chars, rest) ↔
      ∃ tail, found = some (tail, rest) ∧ chars = c :: tail := by
  cases found with
  | none => simp [prepend]
  | some found => cases found; simp [prepend]; grind

/-- What is left does not depend on the character in front. -/
theorem length_of_prepend {c : Char} {found : Option (List Char × List Char)}
    {chars rest : List Char} {bound : Nat} (h : prepend c found = some (chars, rest))
    (hfound : ∀ tail, found = some (tail, rest) → rest.length < bound) :
    rest.length < bound := by
  obtain ⟨tail, htail, _⟩ := prepend_eq_some_iff.1 h
  exact hfound tail htail

/-- What is left behind a text is shorter than the text with its quotation mark. -/
theorem length_of_scanText? {text chars rest : List Char}
    (h : scanText? text = some (chars, rest)) : rest.length < text.length := by
  fun_induction scanText? text generalizing chars with
  | case2 => simp_all
  | case4 _ _ _ _ _ _ _ _ ih =>
    have := length_of_prepend h fun _ => ih
    simp only [List.length_cons]
    omega
  | case7 _ _ _ _ _ _ _ _ _ _ _ _ _ _ _ _ ih =>
    have := length_of_prepend h fun _ => ih
    simp only [List.length_cons]
    omega
  | case11 _ _ _ _ _ ih =>
    have := length_of_prepend h fun _ => ih
    simp only [List.length_cons]
    omega
  | case13 _ _ _ _ _ _ ih =>
    have := length_of_prepend h fun _ => ih
    simp only [List.length_cons]
    omega
  | _ => simp at h

/-- Digits at the beginning and what stands behind them make up the text. -/
theorem length_leadingDigits_add (text : List Char) :
    (leadingDigits text).length + (afterDigits text).length = text.length := by
  rw [← List.length_append, leadingDigits, afterDigits, List.takeWhile_append_dropWhile]

/-- What stands behind the digits is no longer than the whole. -/
theorem length_afterDigits_le (text : List Char) : (afterDigits text).length ≤ text.length := by
  have := length_leadingDigits_add text
  omega

/-- The whole part of a numeral takes at least one character. -/
theorem length_of_scanWhole? {text digits rest : List Char}
    (h : scanWhole? text = some (digits, rest)) : rest.length < text.length := by
  unfold scanWhole? at h
  split at h
  · next hplain =>
    have hdigits : leadingDigits text ≠ [] := by simp_all [isPlainWhole]
    have hlength := length_leadingDigits_add text
    have := List.length_pos_iff.2 hdigits
    simp only [Option.some.injEq, Prod.mk.injEq] at h
    obtain ⟨_, rfl⟩ := h
    omega
  · simp at h

/-- A fraction, which may be absent, leaves no more than it was given. -/
theorem length_of_scanFraction? {text digits rest : List Char}
    (h : scanFraction? text = some (digits, rest)) : rest.length ≤ text.length := by
  unfold scanFraction? at h
  split at h
  · next tail =>
    split at h
    · simp at h
    · have := length_afterDigits_le tail
      simp only [Option.some.injEq, Prod.mk.injEq] at h
      obtain ⟨_, rfl⟩ := h
      simp only [List.length_cons]
      omega
  · simp_all

/-- The digits of an exponent leave no more than they were given. -/
theorem length_of_scanExponentDigits? {negative : Bool} {text rest : List Char}
    {exponent : Option (Bool × List Char)}
    (h : scanExponentDigits? negative text = some (exponent, rest)) :
    rest.length ≤ text.length := by
  unfold scanExponentDigits? at h
  split at h
  · simp at h
  · have := length_afterDigits_le text
    simp_all

/-- An exponent with its sign leaves no more than it was given. -/
theorem length_of_scanSignedExponent? {text rest : List Char}
    {exponent : Option (Bool × List Char)}
    (h : scanSignedExponent? text = some (exponent, rest)) : rest.length ≤ text.length := by
  unfold scanSignedExponent? at h
  split at h
  · exact Nat.le_succ_of_le (length_of_scanExponentDigits? h)
  · exact Nat.le_succ_of_le (length_of_scanExponentDigits? h)
  · exact length_of_scanExponentDigits? h

/-- An exponent, which may be absent, leaves no more than it was given. -/
theorem length_of_scanExponent? {text rest : List Char} {exponent : Option (Bool × List Char)}
    (h : scanExponent? text = some (exponent, rest)) : rest.length ≤ text.length := by
  unfold scanExponent? at h
  split at h
  · exact Nat.le_succ_of_le (length_of_scanSignedExponent? h)
  · exact Nat.le_succ_of_le (length_of_scanSignedExponent? h)
  · simp_all

/-- A numeral takes at least one character, whatever its sign. -/
theorem length_of_scanUnsigned? {negative : Bool} {text rest : List Char} {numeral : Numeral}
    (h : scanUnsigned? negative text = some (numeral, rest)) : rest.length < text.length := by
  unfold scanUnsigned? at h
  obtain ⟨⟨whole, afterWhole⟩, hwhole, h⟩ := Option.bind_eq_some_iff.1 h
  obtain ⟨⟨fraction, afterFraction⟩, hfraction, h⟩ := Option.bind_eq_some_iff.1 h
  obtain ⟨⟨exponent, afterExponent⟩, hexponent, h⟩ := Option.map_eq_some_iff.1 h
  have h1 := length_of_scanWhole? hwhole
  have h2 := length_of_scanFraction? hfraction
  have h3 := length_of_scanExponent? hexponent
  simp only [Prod.mk.injEq] at h
  obtain ⟨_, rfl⟩ := h
  simp only at h2 h3
  omega

/-- A number takes at least one character. -/
theorem length_of_scanNumber? {text rest : List Char} {value : Scalar}
    (h : scanNumber? text = some (value, rest)) : rest.length < text.length := by
  obtain ⟨⟨numeral, after⟩, hnumeral, h⟩ := Option.bind_eq_some_iff.1 h
  obtain ⟨_, _, h⟩ := Option.map_eq_some_iff.1 h
  simp only [Prod.mk.injEq] at h
  obtain ⟨_, rfl⟩ := h
  unfold scanNumeral? at hnumeral
  split at hnumeral
  · exact Nat.lt_succ_of_lt (length_of_scanUnsigned? hnumeral)
  · exact length_of_scanUnsigned? hnumeral

/-- A token takes at least one character, so the lexer comes to an end. -/
theorem length_of_scanToken? {text rest : List Char} {token : Token}
    (h : scanToken? text = some (token, rest)) : rest.length < text.length := by
  unfold scanToken? at h
  split at h
  case h_7 tail =>
    obtain ⟨⟨_, _⟩, hfound, h⟩ := Option.map_eq_some_iff.1 h
    simp only [Prod.mk.injEq] at h
    obtain ⟨_, rfl⟩ := h
    exact Nat.lt_succ_of_lt (length_of_scanText? hfound)
  case h_11 =>
    obtain ⟨⟨_, _⟩, hfound, h⟩ := Option.map_eq_some_iff.1 h
    simp only [Prod.mk.injEq] at h
    obtain ⟨_, rfl⟩ := h
    exact length_of_scanNumber? hfound
  all_goals
    simp only [Option.some.injEq, Prod.mk.injEq] at h
    obtain ⟨_, rfl⟩ := h
    simp only [List.length_cons]
    omega

/-- The tokens of a text. -/
def lex (text : List Char) : Option (List Token) :=
  match text with
  | [] => some []
  | c :: rest =>
    if isGap c then lex rest
    else match _found : scanToken? (c :: rest) with
      | none => none
      | some (token, rest) => match lex rest with
        | none => none
        | some tokens => some (token :: tokens)
termination_by text.length
decreasing_by
  · simp
  · exact length_of_scanToken? (by assumption)

end ContainerFeed.Json
