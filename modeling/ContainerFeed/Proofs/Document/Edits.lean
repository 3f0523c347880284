import ContainerFeed.Proofs.Document.Places

/-!
# Edits at one place of a document

Writing and removing both change the entry of one container and nothing beside it. This file
says what such an edit leaves as it was: the containers on the way to other places keep their
shape, and every place that parts from the edited one keeps its node.
-/

namespace ContainerFeed.Node

/-- The second document is the first one with the entry at a place changed, and nothing else. -/
def EditedAt : List String → Node → Node → Prop
  | [], _, _ => False
  | step :: rest, old, new => old.SameShape new ∧
      (∀ other, ¬ old.SameChild step other → new.child? other = old.child? other) ∧
      (rest ≠ [] → ∃ c d, old.child? step = some c ∧ new.child? step = some d ∧ EditedAt rest c d)

/-- An edit is seen only at its place and below it. -/
theorem EditedAt.follow?_eq {p q : List String} {old new : Node} (h : EditedAt p old new)
    (hapart : old.Apart p q) : new.follow? q = old.follow? q := by
  induction p generalizing q old new with
  | nil => exact h.elim
  | cons s p ih =>
    cases q with
    | nil => simp [Apart] at hapart
    | cons t q =>
      obtain ⟨hshape, hothers, hinner⟩ := h
      by_cases hsame : old.SameChild s t
      · obtain ⟨child, hchild, hbelow⟩ := hapart hsame
        have hp : p ≠ [] := by
          rintro rfl
          simp [Apart] at hbelow
        obtain ⟨c, d, hc, hd, hedited⟩ := hinner hp
        obtain rfl : c = child := by simpa [hc] using hchild
        have hnew : new.child? t = some d := by
          rw [← ((hshape.sameChild_iff s t).mp hsame).child?_eq, hd]
        simp only [follow?, ← hsame.child?_eq, hc, hnew]
        exact ih hedited hbelow
      · simp only [follow?, hothers t hsame]

/-- An edit keeps the way to every place that it does not lie above. -/
theorem EditedAt.sameWay {p q : List String} {old new : Node} (h : EditedAt q old new)
    (haccepts : old.Accepts p) (hnot : ¬ old.Above q p) : SameWay p old new := by
  induction p generalizing q old new with
  | nil => trivial
  | cons t p ih =>
    cases q with
    | nil => exact h.elim
    | cons s q =>
      obtain ⟨hshape, hothers, hinner⟩ := h
      refine ⟨hshape, fun hp => ?_⟩
      obtain ⟨child, hchild, hbelow⟩ := haccepts.2 hp
      by_cases hsame : old.SameChild s t
      · have hq : q ≠ [] := by
          rintro rfl
          exact hnot ⟨hsame, child, hchild, by simpa [Above] using hp⟩
        obtain ⟨c, d, hc, hd, hedited⟩ := hinner hq
        obtain rfl : c = child := by
          rw [hsame.child?_eq, hchild] at hc
          exact (Option.some.inj hc).symm
        refine ⟨c, d, hchild, ?_, ih hedited hbelow fun h => hnot ⟨hsame, c, hchild, h⟩⟩
        rw [← ((hshape.sameChild_iff s t).mp hsame).child?_eq, hd]
      · exact ⟨child, child, hchild, (hothers t hsame).trans hchild, hbelow.sameWay_refl⟩

/-- An edit that leaves at most a leaf at its place. -/
structure LeafEdit (p : List String) (old new : Node) : Prop where
  edited : EditedAt p old new
  leaf : ∀ inner, new.follow? p = some inner → ∃ value, inner = .leaf value

/-- Leaves open no new places: what can be written after the edit could be written before, and
the way there is the same. -/
theorem LeafEdit.sameWay_of_accepts {p q : List String} {old new : Node}
    (h : LeafEdit q old new) (haccepts : new.Accepts p) : SameWay p old new := by
  obtain ⟨hedited, hleaf⟩ := h
  induction p generalizing q old new with
  | nil => trivial
  | cons t p ih =>
    cases q with
    | nil => exact hedited.elim
    | cons s q =>
      obtain ⟨hshape, hothers, hinner⟩ := hedited
      refine ⟨hshape, fun hp => ?_⟩
      obtain ⟨child, hchild, hbelow⟩ := haccepts.2 hp
      by_cases hsame : old.SameChild s t
      · have hnew : new.child? s = some child := by
          rw [((hshape.sameChild_iff s t).mp hsame).child?_eq, hchild]
        have hq : q ≠ [] := by
          rintro rfl
          obtain ⟨value, rfl⟩ := hleaf child (by simp [follow?, hnew])
          cases p with
          | nil => exact hp rfl
          | cons => exact hbelow.1
        obtain ⟨c, d, hc, hd, hedited⟩ := hinner hq
        obtain rfl : d = child := by simpa [hd] using hnew
        refine ⟨c, d, by rw [← hsame.child?_eq, hc], hchild, ih hbelow hedited fun x hx => ?_⟩
        exact hleaf x (by simpa [follow?, hd] using hx)
      · exact ⟨child, child, (hothers t hsame).symm.trans hchild, hchild, hbelow.sameWay_refl⟩

end ContainerFeed.Node
