import ContainerFeed.Proofs.Document.Writing
import ContainerFeed.Proofs.Template.Found
import ContainerFeed.Proofs.Template.Lookup

/-!
# What is left of a region

The skeleton of a region is its document with the default of every spec in place. The places of
the specs part from each other, so each default stands in the end, whatever the order, and the
ways to all these places are those of the document.
-/

namespace ContainerFeed.Template

open Node (SameWay)

-- The steps of a path are only ever compared, never computed, in this file.
attribute [local irreducible] Path.segments

/-- What stands at the place of a spec before any measurement: its default, or else nothing in a
map and null in a list. -/
def DefaultStands (document : Node) (spec : Spec) : Prop :=
  match spec.default with
  | some value => document.follow? (Path.segments spec.target) = some (.leaf value)
  | none => ∃ parent, document.follow? (Path.segments spec.target).dropLast = some parent ∧
      document.follow? (Path.segments spec.target) =
        if parent.isMap then none else some (.leaf .null)

variable {old new : Node} {spec : Spec} {specs : List Spec}

/-- A default is put where the document has a place for it. -/
theorem accepts_of_applyDefault (h : applyDefault old spec = .ok new) :
    old.Accepts (Path.segments spec.target) := by
  unfold applyDefault at h
  cases hdefault : spec.default with
  | some value =>
    simp only [hdefault] at h
    exact Node.exists_set_iff.mp ⟨new, h⟩
  | none =>
    simp only [hdefault] at h
    obtain ⟨⟨removed, _⟩, hremove, rfl⟩ := Outcome.map_eq_ok_iff.mp h
    exact Node.accepts_of_remove hremove

/-- Putting a default in its place is an edit that leaves at most a leaf. -/
theorem leafEdit_of_applyDefault (h : applyDefault old spec = .ok new)
    (hroot : Path.segments spec.target ≠ []) :
    Node.LeafEdit (Path.segments spec.target) old new ∧ DefaultStands new spec := by
  unfold applyDefault at h
  unfold DefaultStands
  cases hdefault : spec.default with
  | some value =>
    simp only [hdefault] at h ⊢
    exact ⟨Node.leafEdit_of_set h hroot, Node.follow?_of_set h⟩
  | none =>
    simp only [hdefault] at h ⊢
    obtain ⟨⟨removed, _⟩, hremove, rfl⟩ := Outcome.map_eq_ok_iff.mp h
    obtain ⟨hedit, parent, hparent, hplace⟩ := Node.leafEdit_of_remove hremove hroot
    refine ⟨hedit, ?_⟩
    have hway : SameWay (Path.segments spec.target) old _ :=
      hedit.edited.sameWay (Node.accepts_of_remove hremove) (Node.not_above_self _ _)
    obtain ⟨other, hother, hshape⟩ := hway.parent hroot hparent
    exact ⟨other, hother, hshape.isMap_eq ▸ hplace⟩

/-- A default stands in every document with the same way to its place and the same node there. -/
theorem DefaultStands.congr (h : DefaultStands old spec) (hroot : Path.segments spec.target ≠ [])
    (hway : SameWay (Path.segments spec.target) old new)
    (hsame : new.follow? (Path.segments spec.target) = old.follow? (Path.segments spec.target)) :
    DefaultStands new spec := by
  unfold DefaultStands at h ⊢
  cases hdefault : spec.default with
  | some value =>
    simp only [hdefault] at h ⊢
    exact hsame.trans h
  | none =>
    simp only [hdefault] at h ⊢
    obtain ⟨parent, hparent, hplace⟩ := h
    obtain ⟨other, hother, hshape⟩ := hway.parent hroot hparent
    exact ⟨other, hother, hsame.trans (hshape.isMap_eq ▸ hplace)⟩

/-- Putting defaults in place begins with that of the first spec. -/
theorem applyDefaults_cons_eq_ok_iff :
    applyDefaults old (spec :: specs) = .ok new ↔
      ∃ first, applyDefault old spec = .ok first ∧ applyDefaults first specs = .ok new :=
  Outcome.foldlM_cons_eq_ok_iff

/-- Where a default has been put, one could have been put from the beginning. -/
theorem accepts_of_applyDefaults (hroot : ∀ spec ∈ specs, Path.segments spec.target ≠ [])
    (h : applyDefaults old specs = .ok new) :
    ∀ spec ∈ specs, old.Accepts (Path.segments spec.target) := by
  induction specs generalizing old with
  | nil => simp
  | cons spec specs ih =>
    obtain ⟨first, hfirst, hrest⟩ := applyDefaults_cons_eq_ok_iff.mp h
    obtain ⟨hspecroot, hroot⟩ := List.forall_mem_cons.mp hroot
    refine List.forall_mem_cons.mpr ⟨accepts_of_applyDefault hfirst, fun other hother => ?_⟩
    have haccepts := ih hroot hrest other hother
    have hedit := (leafEdit_of_applyDefault hfirst hspecroot).1
    exact (hedit.sameWay_of_accepts haccepts).symm.accepts haccepts

/-- Defaults at places that part from each other: they keep the way to every place that none of
them lies above, and the node at every place that parts from all of them; and each of them stands
in the end. -/
theorem applyDefaults_spec (hroot : ∀ spec ∈ specs, Path.segments spec.target ≠ [])
    (hapart : specs.Pairwise fun a b =>
      old.Apart (Path.segments a.target) (Path.segments b.target))
    (h : applyDefaults old specs = .ok new) :
    (∀ p, old.Accepts p → (∀ spec ∈ specs, ¬ old.Above (Path.segments spec.target) p) →
      SameWay p old new) ∧
    (∀ p, (∀ spec ∈ specs, old.Apart (Path.segments spec.target) p) →
      new.follow? p = old.follow? p) ∧
    ∀ spec ∈ specs, DefaultStands new spec := by
  have haccepts := accepts_of_applyDefaults hroot h
  induction specs generalizing old with
  | nil =>
    obtain rfl := Outcome.foldlM_nil_eq_ok_iff.mp h
    exact ⟨fun p hp _ => hp.sameWay_refl, fun _ _ => rfl, by simp⟩
  | cons spec specs ih =>
    obtain ⟨first, hfirst, hrest⟩ := applyDefaults_cons_eq_ok_iff.mp h
    obtain ⟨hspecroot, hroot⟩ := List.forall_mem_cons.mp hroot
    obtain ⟨hspecapart, hapart⟩ := List.pairwise_cons.mp hapart
    obtain ⟨hspecaccepts, haccepts⟩ := List.forall_mem_cons.mp haccepts
    obtain ⟨hedit, hstands⟩ := leafEdit_of_applyDefault hfirst hspecroot
    have hways : ∀ other ∈ specs, SameWay (Path.segments other.target) old first :=
      fun other hother => hedit.edited.sameWay (haccepts other hother)
        (hspecapart other hother).not_above
    have hapart' : specs.Pairwise fun a b =>
        first.Apart (Path.segments a.target) (Path.segments b.target) :=
      hapart.imp_of_mem fun ha _ hab => (hways _ ha).apart hab
    obtain ⟨hkeep, hother, hall⟩ := ih hroot hapart' hrest
      fun other hother => (hways other hother).accepts (haccepts other hother)
    have hself : ∀ other ∈ specs, first.Apart (Path.segments other.target)
        (Path.segments spec.target) :=
      fun other hother => (hways other hother).apart (hspecapart other hother).symm
    refine ⟨fun p hp hnot => ?_, fun p hp => ?_, List.forall_mem_cons.mpr ⟨?_, hall⟩⟩
    · obtain ⟨hspecnot, hnot⟩ := List.forall_mem_cons.mp hnot
      have hway := hedit.edited.sameWay hp hspecnot
      refine hway.trans (hkeep p (hway.accepts hp) fun other hother habove => ?_)
      exact hnot other hother (hway.symm.above habove)
    · obtain ⟨hspecp, hp⟩ := List.forall_mem_cons.mp hp
      rw [← hedit.edited.follow?_eq hspecp]
      exact hother p fun other hother => (hways other hother).apart (hp other hother)
    · have hway : SameWay (Path.segments spec.target) old first :=
        hedit.edited.sameWay hspecaccepts (Node.not_above_self _ _)
      have hfinal : SameWay (Path.segments spec.target) first new :=
        hkeep _ (hway.accepts hspecaccepts) fun other hother => (hself other hother).not_above
      exact hstands.congr hspecroot hfinal (hother _ hself)

end ContainerFeed.Template
