import ContainerFeed.Proofs.Document.Writing
import ContainerFeed.Proofs.Outcomes
import ContainerFeed.Template.Region
import Mathlib.Data.Set.Insert

/-!
# Places that outlive writes

Values are leaves, so a place that lies below a written one is lost for good. A document keeps
some places under some writes when all of them can be written to begin with and none lies below
a written place. Then they can be written after any number of such writes, and only then.
-/

namespace ContainerFeed

namespace Node

/-- The document has the kept places, and none of the written places lies above one of them. -/
def Keeps (document : Node) (written kept : Set (List String)) : Prop :=
  ∀ p ∈ kept, document.Accepts p ∧ ∀ q ∈ written, ¬ document.Above q p

/-- The ways to some places are the same in two documents. -/
def SameWays (places : Set (List String)) (a b : Node) : Prop :=
  ∀ p ∈ places, SameWay p a b

/-- The ways to the places that a document keeps are there. -/
theorem Keeps.sameWays_refl {document : Node} {written kept : Set (List String)}
    (h : document.Keeps written kept) : SameWays kept document document :=
  fun p hp => (h p hp).1.sameWay_refl

/-- A document that keeps places keeps fewer of them while fewer are written. -/
theorem Keeps.mono {document : Node} {written fewer kept less : Set (List String)}
    (h : document.Keeps written kept) (hwritten : fewer ⊆ written) (hkept : less ⊆ kept) :
    document.Keeps fewer less :=
  fun p hp => ⟨(h p (hkept hp)).1, fun q hq => (h p (hkept hp)).2 q (hwritten hq)⟩

/-- Writing at a written place keeps the ways to the kept ones. -/
theorem Keeps.sameWays_set {base old value new : Node} {written kept : Set (List String)}
    (hbase : base.Keeps written kept) (hways : SameWays kept base old) {path : String}
    (hpath : Path.segments path ∈ written) (h : old.set path value = .ok new) :
    SameWays kept base new := by
  intro p hp
  obtain ⟨haccepts, hnot⟩ := hbase p hp
  refine (hways p hp).trans (sameWay_of_set h ((hways p hp).accepts haccepts) fun habove => ?_)
  exact hnot _ hpath ((hways p hp).symm.above habove)

/-- Kept places can be written. -/
theorem Keeps.exists_set {base old : Node} {written kept : Set (List String)}
    (hbase : base.Keeps written kept) (hways : SameWays kept base old) {path : String}
    (hpath : Path.segments path ∈ kept) (value : Node) : ∃ new, old.set path value = .ok new :=
  ((hways _ hpath).accepts (hbase _ hpath).1).exists_set value

/-- The places that can be written in the second document can be written in the first one too,
the ways to them are the same, and none of the written places lies above them. -/
def Narrows (written : Set (List String)) (old new : Node) : Prop :=
  ∀ p, new.Accepts p → old.Accepts p ∧ SameWay p old new ∧ ∀ q ∈ written, ¬ old.Above q p

/-- A document narrows to itself when nothing is written. -/
theorem narrows_refl (document : Node) : Narrows ∅ document document :=
  fun _ hp => ⟨hp, hp.sameWay_refl, by simp⟩

/-- Narrowing a document twice narrows it by what was written both times. -/
theorem Narrows.trans {written later : Set (List String)} {a b c : Node}
    (hab : Narrows written a b) (hbc : Narrows later b c) : Narrows (written ∪ later) a c := by
  intro p hp
  obtain ⟨hb, hwaybc, hlater⟩ := hbc p hp
  obtain ⟨ha, hwayab, hwritten⟩ := hab p hb
  refine ⟨ha, hwayab.trans hwaybc, ?_⟩
  rintro q (hq | hq) habove
  · exact hwritten q hq habove
  · exact hlater q hq (hwayab.above habove)

/-- A document that has been narrowed has been so by any part of what was written. -/
theorem Narrows.mono {written fewer : Set (List String)} {old new : Node}
    (h : Narrows written old new) (hsub : fewer ⊆ written) : Narrows fewer old new :=
  fun p hp => ⟨(h p hp).1, (h p hp).2.1, fun q hq => (h p hp).2.2 q (hsub hq)⟩

/-- A leaf closes what lies below it, and opens nothing. -/
theorem narrows_set_leaf {old new : Node} {value : Scalar} {path : String}
    (h : old.set path (.leaf value) = .ok new) : Narrows {Path.segments path} old new := by
  intro p hp
  obtain ⟨haccepts, hnot⟩ := (accepts_iff_of_set_leaf h).mp hp
  exact ⟨haccepts, sameWay_of_set_leaf h hp, by simpa using hnot⟩

end Node

namespace Template.Region

open Node

variable {specs : List Spec} {value : Scalar}

/-- The places that a list of specs writes. -/
def places (specs : List Spec) : Set (List String) :=
  {p | ∃ spec ∈ specs, Path.segments spec.target = p}

/-- Writing all targets writes the first one, and then the others. -/
theorem writeTargets_cons_eq_ok_iff {old new : Node} {spec : Spec} :
    writeTargets old (spec :: specs) value = .ok new ↔
      ∃ first, old.set spec.target (.leaf value) = .ok first ∧
        writeTargets first specs value = .ok new :=
  Outcome.foldlM_cons_eq_ok_iff

/-- Targets that are both written and kept can be written in any order, any number of times. -/
theorem exists_writeTargets {base old : Node} {written kept : Set (List String)}
    (hbase : base.Keeps written kept) (hways : SameWays kept base old)
    (hwritten : places specs ⊆ written) (hkept : places specs ⊆ kept) (value : Scalar) :
    ∃ new, writeTargets old specs value = .ok new ∧ SameWays kept base new := by
  induction specs generalizing old with
  | nil => exact ⟨old, rfl, hways⟩
  | cons spec specs ih =>
    have hmem : Path.segments spec.target ∈ places (spec :: specs) := ⟨spec, by simp, rfl⟩
    have hsub : places specs ⊆ places (spec :: specs) :=
      fun p ⟨other, hother, hp⟩ => ⟨other, by simp [hother], hp⟩
    obtain ⟨first, hfirst⟩ := hbase.exists_set hways (hkept hmem) (.leaf value)
    have hnext := hbase.sameWays_set hways (hwritten hmem) hfirst
    obtain ⟨new, hnew, hfinal⟩ := ih hnext (hsub.trans hwritten) (hsub.trans hkept)
    exact ⟨new, writeTargets_cons_eq_ok_iff.mpr ⟨first, hfirst, hnew⟩, hfinal⟩

section

variable {base old new : Node} {all : List Spec} (hbase : base.Keeps (places all) (places all))
  (hways : SameWays (places all) base old) (hsub : specs ⊆ all)
  (hroot : ∀ spec ∈ all, Path.segments spec.target ≠ [])
  (h : writeTargets old specs value = .ok new)

include hbase hways hsub hroot h

/-- A value is found at the places it has been written to, and a place that parts from all the
others keeps its node. -/
theorem follow?_of_writeTargets_place {p : List String}
    (hp : ∀ spec ∈ all, Path.segments spec.target = p ∨
      base.Apart (Path.segments spec.target) p) :
    new.follow? p =
      if ∃ spec ∈ specs, Path.segments spec.target = p then some (.leaf value)
      else old.follow? p := by
  induction specs generalizing old with
  | nil =>
    obtain rfl := Outcome.foldlM_nil_eq_ok_iff.mp h
    simp
  | cons other specs ih =>
    obtain ⟨first, hfirst, hrest⟩ := writeTargets_cons_eq_ok_iff.mp h
    obtain ⟨hother, hsub⟩ := List.cons_subset.mp hsub
    have hplace : Path.segments other.target ∈ places all := ⟨other, hother, rfl⟩
    rw [ih (hbase.sameWays_set hways hplace hfirst) hsub hrest]
    by_cases hlater : ∃ spec ∈ specs, Path.segments spec.target = p
    · simp [hlater]
    by_cases heq : Path.segments other.target = p
    · subst heq
      simpa [hlater] using follow?_of_set hfirst
    · have hparts := (hways _ hplace).apart ((hp other hother).resolve_left heq)
      have hedit := (editedAt_of_set hfirst (hroot other hother)).1
      simpa [hlater, heq] using hedit.follow?_eq hparts

/-- A value is found at the places it has been written to, and the other places that part from
them keep their nodes. -/
theorem follow?_of_writeTargets
    (hapart : ∀ a ∈ all, ∀ b ∈ all, a ≠ b →
      base.Apart (Path.segments a.target) (Path.segments b.target))
    {spec : Spec} (hspec : spec ∈ all) :
    new.follow? (Path.segments spec.target) =
      if spec ∈ specs then some (.leaf value) else old.follow? (Path.segments spec.target) := by
  have hother {other : Spec} (hmem : other ∈ all)
      (hsame : Path.segments other.target = Path.segments spec.target) : other = spec := by
    by_contra hne
    exact not_apart_self base _ (hsame ▸ hapart other hmem spec hspec hne)
  have hwritten : (∃ other ∈ specs, Path.segments other.target = Path.segments spec.target) ↔
      spec ∈ specs :=
    ⟨fun ⟨other, hmem, hsame⟩ => hother (hsub hmem) hsame ▸ hmem, fun hmem => ⟨spec, hmem, rfl⟩⟩
  rw [follow?_of_writeTargets_place hbase hways hsub hroot h fun other hmem => ?_]
  · simp only [hwritten]
  · by_cases heq : other = spec
    · exact .inl (heq ▸ rfl)
    · exact .inr (hapart other hmem spec hspec heq)

/-- A place that parts from all places that a value has been written to keeps its node. -/
theorem follow?_of_writeTargets_apart {p : List String}
    (hapart : ∀ spec ∈ all, base.Apart (Path.segments spec.target) p) :
    new.follow? p = old.follow? p := by
  rw [follow?_of_writeTargets_place hbase hways hsub hroot h fun spec hspec =>
    .inr (hapart spec hspec), if_neg]
  rintro ⟨spec, hspec, rfl⟩
  exact not_apart_self base _ (hapart spec (hsub hspec))

end

/-- Values close what lies below their places, and open nothing. -/
theorem narrows_writeTargets {old new : Node} (h : writeTargets old specs value = .ok new) :
    Narrows (places specs) old new := by
  induction specs generalizing old with
  | nil =>
    obtain rfl := Outcome.foldlM_nil_eq_ok_iff.mp h
    exact (narrows_refl _).mono (by simp [places])
  | cons spec specs ih =>
    obtain ⟨first, hfirst, hrest⟩ := writeTargets_cons_eq_ok_iff.mp h
    refine ((narrows_set_leaf hfirst).trans (ih hrest)).mono ?_
    rintro q ⟨other, hother, rfl⟩
    rcases List.mem_cons.mp hother with rfl | hother
    · exact .inl rfl
    · exact .inr ⟨other, hother, rfl⟩

/-- Where a value has been written, one could be written before. -/
theorem accepts_of_writeTargets {old new : Node} (h : writeTargets old specs value = .ok new)
    {p : List String} (hp : p ∈ places specs) : old.Accepts p := by
  induction specs generalizing old with
  | nil => simp [places] at hp
  | cons spec specs ih =>
    obtain ⟨first, hfirst, hrest⟩ := writeTargets_cons_eq_ok_iff.mp h
    obtain ⟨other, hother, rfl⟩ := hp
    rcases List.mem_cons.mp hother with rfl | hother
    · exact exists_set_iff.mp ⟨first, hfirst⟩
    · exact ((accepts_iff_of_set_leaf hfirst).mp (ih hrest ⟨other, hother, rfl⟩)).1

end Template.Region

end ContainerFeed
