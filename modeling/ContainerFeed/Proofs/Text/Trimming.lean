import ContainerFeed.Text.Blank
import Mathlib.Data.List.TakeWhile

/-!
# Trimming

White space around a text does not change what trimming leaves, and what it leaves begins and ends
with characters that are not white space. A character inside that is not white space keeps the two
sides of a text apart, so that each is trimmed at its own end only.
-/

namespace ContainerFeed.Text

section

variable {text gap front back : List Char}

/-- Blanks in front are trimmed away. -/
theorem trimStart_append_of_blank (h : ∀ c ∈ gap, isBlank c = true) (text : List Char) :
    trimStart (gap ++ text) = trimStart text :=
  List.dropWhile_append_of_pos h

/-- Blanks behind are trimmed away. -/
theorem trimEnd_append_of_blank (text : List Char) (h : ∀ c ∈ gap, isBlank c = true) :
    trimEnd (text ++ gap) = trimEnd text := by
  rw [trimEnd, trimEnd, List.reverse_append,
    List.dropWhile_append_of_pos fun c hc => h c (List.mem_reverse.mp hc)]

/-- Nothing is left of blanks that are trimmed in front. -/
theorem trimStart_eq_nil (h : ∀ c ∈ text, isBlank c = true) : trimStart text = [] :=
  List.dropWhile_eq_nil_iff.mpr h

/-- White space before a text is trimmed away. -/
theorem trim_blank_append (h : ∀ c ∈ gap, isBlank c = true) (text : List Char) :
    trim (gap ++ text) = trim text := by
  rw [trim, trim, trimStart_append_of_blank h]

/-- White space after a text is trimmed away. -/
theorem trim_append_blank (text : List Char) (h : ∀ c ∈ gap, isBlank c = true) :
    trim (text ++ gap) = trim text := by
  rw [trim, trim, trimStart, trimStart, List.dropWhile_append]
  split
  · rename_i hnone
    have hgap : gap.dropWhile isBlank = [] := trimStart_eq_nil h
    rw [hgap, List.isEmpty_iff.mp hnone]
  · exact trimEnd_append_of_blank _ h

/-- Nothing is left of blanks. -/
theorem trim_of_blank (h : ∀ c ∈ gap, isBlank c = true) : trim gap = [] := by
  rw [trim, trimStart_eq_nil h]
  rfl

/-- Trimming in front adds nothing to trimming on both sides. -/
theorem trim_trimStart (text : List Char) : trim (trimStart text) = trim text := by
  have hsplit : text = text.takeWhile isBlank ++ trimStart text :=
    (List.takeWhile_append_dropWhile).symm
  have hblank : ∀ c ∈ text.takeWhile isBlank, isBlank c = true := fun c hc =>
    List.mem_takeWhile_imp hc
  rw [← trim_blank_append hblank, ← hsplit]

/-- Trimming behind adds nothing to trimming on both sides. -/
theorem trim_trimEnd (text : List Char) : trim (trimEnd text) = trim text := by
  have hsplit : text = trimEnd text ++ (text.reverse.takeWhile isBlank).reverse := by
    rw [trimEnd, ← List.reverse_append, List.takeWhile_append_dropWhile, List.reverse_reverse]
  have hblank : ∀ c ∈ (text.reverse.takeWhile isBlank).reverse, isBlank c = true := fun c hc =>
    List.mem_takeWhile_imp (List.mem_reverse.mp hc)
  rw [← trim_append_blank _ hblank, ← hsplit]

/-- The two sides of a character that is not white space are trimmed at their own ends. -/
theorem trim_append_cons {mark : Char} (h : isBlank mark = false) (front back : List Char) :
    trim (front ++ mark :: back) = trimStart front ++ mark :: trimEnd back := by
  have hstart : trimStart (front ++ mark :: back) = trimStart front ++ mark :: back := by
    rw [trimStart, trimStart, List.dropWhile_append]
    split
    · rename_i hnone
      rw [List.isEmpty_iff.mp hnone, List.dropWhile_cons_of_neg (by simp [h])]
      rfl
    · rfl
  rw [trim, hstart, trimEnd, trimEnd, List.reverse_append, List.reverse_cons, List.append_assoc,
    List.dropWhile_append]
  split
  · rename_i hnone
    rw [List.isEmpty_iff.mp hnone, List.singleton_append, List.dropWhile_cons_of_neg (by simp [h])]
    simp
  · simp

/-- Trimming makes no text longer. -/
theorem length_trim_le (text : List Char) : (trim text).length ≤ text.length := by
  have hend : (trim text).length ≤ (trimStart text).length := by
    rw [trim, trimEnd, List.length_reverse]
    exact (List.length_dropWhile_le _ _).trans_eq List.length_reverse
  exact hend.trans (List.length_dropWhile_le _ _)

/-- A trimmed text does not begin with white space. -/
theorem isBlank_of_trim_cons {c : Char} {rest : List Char} (h : trim (c :: rest) = c :: rest) :
    isBlank c = false := by
  refine Bool.eq_false_iff.mpr fun hblank => ?_
  have hrest : trim ([c] ++ rest) = trim rest := trim_blank_append (by simpa using hblank) rest
  have hlength := length_trim_le rest
  rw [← hrest, List.singleton_append, h, List.length_cons] at hlength
  omega

/-- A trimmed text does not end with white space. -/
theorem isBlank_of_trim_concat {c : Char} {front : List Char}
    (h : trim (front ++ [c]) = front ++ [c]) : isBlank c = false := by
  refine Bool.eq_false_iff.mpr fun hblank => ?_
  have hfront : trim (front ++ [c]) = trim front := trim_append_blank front (by simpa using hblank)
  have hlength := length_trim_le front
  rw [← hfront, h, List.length_append, List.length_singleton] at hlength
  omega

end

end ContainerFeed.Text
