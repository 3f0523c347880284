import ContainerFeed.Proofs.Document.Keeping
import ContainerFeed.Proofs.Ingest.Rounds

/-!
# The parts of a round

A round works on several documents: the sample, its interfaces, and the container when the round
has discovered it. Each starts from a skeleton, has some fields filled in and then takes values.
A measurement belongs to at most one of these parts, and writing it leaves the others alone.
-/

namespace ContainerFeed.Round

/-- The documents that a round works on. -/
inductive Part where
  | sample
  | interface (name : String)
  | container

namespace Part

/-- The region of a template that describes a part. -/
def region (template : Template) : Part → Template.Region
  | .sample => template.sample
  | .interface _ => template.interface
  | .container => template.container

/-- The document that a part starts from. -/
def skeleton (template : Template) (part : Part) : Node :=
  (part.region template).skeleton

/-- The places that are filled in before the first value. -/
def filledIn : Part → Set (List String)
  | .sample => {Path.segments timestampPath}
  | .interface _ => {[nameField]}
  | .container => {Path.segments Container.idPath, Path.segments Container.namePath}

/-- The places that are written after the last value. -/
def reserved : Part → Set (List String)
  | .sample => {Path.segments Template.interfacesPath}
  | _ => ∅

end Part

/-- The part that a measurement belongs to, with the specs found for it. -/
def partOf? (template : Template) (m : Measurement) : Option (Part × List Template.Spec) :=
  match placeOf template m.ns.display with
  | .sample specs => some (.sample, specs)
  | .interface specs => some (.interface (m.ns.interfaceName?.getD ""), specs)
  | .container specs => some (.container, specs)
  | .nowhere => none

/-- The specs for a measurement are found in the table of its part. -/
theorem resolve?_of_partOf? {template : Template} {m : Measurement} {part : Part}
    {specs : List Template.Spec} (h : partOf? template m = some (part, specs)) :
    (part.region template).mapping.resolve? m.ns.display = some specs := by
  unfold partOf? placeOf at h
  cases hsample : template.sample.mapping.resolve? m.ns.display with
  | some found =>
    obtain ⟨rfl, rfl⟩ : Part.sample = part ∧ found = specs := by simpa [hsample] using h
    exact hsample
  | none =>
    cases hinterface : template.interface.mapping.resolve? m.ns.display with
    | some found =>
      obtain ⟨rfl, rfl⟩ : Part.interface (m.ns.interfaceName?.getD "") = part ∧ found = specs := by
        simpa [hsample, hinterface] using h
      exact hinterface
    | none =>
      cases hcontainer : template.container.mapping.resolve? m.ns.display with
      | none => simp [hsample, hinterface, hcontainer] at h
      | some found =>
        obtain ⟨rfl, rfl⟩ : Part.container = part ∧ found = specs := by
          simpa [hsample, hinterface, hcontainer] using h
        exact hcontainer

/-- The table of the sample comes first: what it finds is written to the sample. -/
theorem partOf?_eq_sample_iff {template : Template} {m : Measurement}
    {specs : List Template.Spec} :
    partOf? template m = some (.sample, specs) ↔
      template.sample.mapping.resolve? m.ns.display = some specs := by
  refine ⟨fun h => resolve?_of_partOf? h, fun h => ?_⟩
  simp [partOf?, placeOf, h]

/-- The places in a part that a measurement is written to. -/
def placesOf (template : Template) (part : Part) (m : Measurement) : Set (List String) :=
  {p | ∃ specs, partOf? template m = some (part, specs) ∧ p ∈ Template.Region.places specs}

/-- The document of a part in progress. -/
def part (round : Round) (template : Template) : Part → Node
  | .sample => round.document
  | .interface name => round.interface template name
  | .container => round.container.document

/-- A round does not write to a container that was there before. -/
def IsOpen (round : Round) : Part → Prop
  | .container => round.discovered
  | _ => True

instance (round : Round) (part : Part) : Decidable (round.IsOpen part) := by
  cases part <;> unfold IsOpen <;> infer_instance

/-- A round with a document put in one of its parts, and one more measurement counted. -/
def put (round : Round) : Part → Node → Round
  | .sample, document => { round with document, produced := true, routed := round.routed + 1 }
  | .interface name, document => { round with
      interfaces := Keyed.insert name document round.interfaces, routed := round.routed + 1 }
  | .container, document => { round with
      container := { round.container with document }, routed := round.routed + 1 }

/-- A new document opens and closes no part. -/
theorem isOpen_put (round : Round) (target : Part) (document : Node) (part : Part) :
    (round.put target document).IsOpen part ↔ round.IsOpen part := by
  cases target <;> cases part <;> rfl

/-- The document that is put in a part is found there. -/
theorem part_put_self (round : Round) (template : Template) (part : Part) (document : Node) :
    (round.put part document).part template part = document := by
  cases part with
  | sample => rfl
  | interface name => simp [put, Round.part, Round.interface]
  | container => rfl

/-- A document that is put in one part leaves the others alone. -/
theorem part_put_of_ne {part target : Part} (h : part ≠ target) (round : Round)
    (template : Template) (document : Node) :
    (round.put target document).part template part = round.part template part := by
  cases target with
  | sample => cases part <;> first | rfl | exact absurd rfl h
  | container => cases part <;> first | rfl | exact absurd rfl h
  | interface name =>
    cases part with
    | sample => rfl
    | container => rfl
    | interface other =>
      have hne : other ≠ name := fun heq => h (heq ▸ rfl)
      simp only [put, Round.part, Round.interface,
        Keyed.get?_insert_of_ne document round.interfaces hne]

/-! ## Writing a measurement -/

variable {template : Template} {round next : Round} {m : Measurement} {part : Part}
  {specs : List Template.Spec}

/-- A measurement without a part leaves a round alone. -/
theorem write_of_partOf?_none (h : partOf? template m = none) :
    round.write template m = .ok round := by
  unfold partOf? at h
  unfold write
  cases hplace : placeOf template m.ns.display <;> simp_all

/-- A measurement is put in its part, if that is open. -/
theorem write_of_partOf?_some (h : partOf? template m = some (part, specs)) :
    round.write template m =
      if round.IsOpen part then
        (Template.Region.writeTargets (round.part template part) specs m.value.scalar).map
          (round.put part)
      else .ok round := by
  unfold partOf? at h
  unfold write
  cases hplace : placeOf template m.ns.display with
  | nowhere => simp [hplace] at h
  | sample found =>
    obtain ⟨rfl, rfl⟩ : Part.sample = part ∧ found = specs := by simpa [hplace] using h
    have hopen : round.IsOpen .sample := trivial
    rw [if_pos hopen]
    cases hwrite : Template.Region.writeTargets round.document found m.value.scalar <;>
      simp only [Round.part, hwrite] <;> rfl
  | interface found =>
    obtain ⟨rfl, rfl⟩ : Part.interface (m.ns.interfaceName?.getD "") = part ∧ found = specs := by
      simpa [hplace] using h
    have hopen : round.IsOpen (.interface (m.ns.interfaceName?.getD "")) := trivial
    rw [if_pos hopen]
    cases hwrite : Template.Region.writeTargets
        (round.interface template (m.ns.interfaceName?.getD "")) found m.value.scalar <;>
      simp only [Round.part, hwrite] <;> rfl
  | container found =>
    obtain ⟨rfl, rfl⟩ : Part.container = part ∧ found = specs := by simpa [hplace] using h
    by_cases hopen : round.discovered = true
    · have hpart : round.IsOpen .container := hopen
      rw [if_pos hpart]
      simp only [if_pos hopen]
      cases hwrite : Template.Region.writeTargets round.container.document found m.value.scalar <;>
        simp only [Round.part, hwrite] <;> rfl
    · have hpart : ¬ round.IsOpen .container := hopen
      rw [if_neg hpart]
      simp only [if_neg hopen]

/-- Writing a measurement succeeds when its values can be written to its part. -/
theorem exists_write (h : ∀ part specs, partOf? template m = some (part, specs) →
      round.IsOpen part →
      ∃ document, Template.Region.writeTargets (round.part template part) specs m.value.scalar =
        .ok document) :
    ∃ next, round.write template m = .ok next := by
  cases hpart : partOf? template m with
  | none => exact ⟨round, write_of_partOf?_none hpart⟩
  | some found =>
    obtain ⟨target, specs⟩ := found
    rw [write_of_partOf?_some hpart]
    by_cases hopen : round.IsOpen target
    · obtain ⟨document, hdocument⟩ := h target specs hpart hopen
      exact ⟨round.put target document, by simp [if_pos hopen, hdocument, Except.map]⟩
    · exact ⟨round, if_neg hopen⟩

/-- Writing a measurement either leaves a round alone, since the measurement has no part that is
open, or puts a document in its part that its values have been written to. -/
theorem write_cases (h : round.write template m = .ok next) :
    (next = round ∧
      ∀ part specs, partOf? template m = some (part, specs) → ¬ round.IsOpen part) ∨
    ∃ part specs document, partOf? template m = some (part, specs) ∧ round.IsOpen part ∧
      Template.Region.writeTargets (round.part template part) specs m.value.scalar =
        .ok document ∧ next = round.put part document := by
  cases hpart : partOf? template m with
  | none =>
    rw [write_of_partOf?_none hpart, Except.ok.injEq] at h
    exact .inl ⟨h.symm, by simp⟩
  | some found =>
    obtain ⟨part, specs⟩ := found
    rw [write_of_partOf?_some hpart] at h
    by_cases hopen : round.IsOpen part
    · rw [if_pos hopen] at h
      obtain ⟨document, hdocument, rfl⟩ := Outcome.map_eq_ok_iff.mp h
      exact .inr ⟨part, specs, document, rfl, hopen, hdocument, rfl⟩
    · rw [if_neg hopen, Except.ok.injEq] at h
      refine .inl ⟨h.symm, fun other specs' hother => ?_⟩
      obtain ⟨rfl, _⟩ : part = other ∧ specs = specs' := by simpa using hother
      exact hopen

/-- What writing a measurement does to the parts of a round. -/
theorem write_eq_ok (h : round.write template m = .ok next) (part : Part) :
    (next.IsOpen part ↔ round.IsOpen part) ∧
    (∀ specs, partOf? template m = some (part, specs) → round.IsOpen part →
      Template.Region.writeTargets (round.part template part) specs m.value.scalar =
        .ok (next.part template part)) ∧
    ((∀ specs, partOf? template m = some (part, specs) → ¬ round.IsOpen part) →
      next.part template part = round.part template part) := by
  rcases write_cases h with ⟨rfl, hclosed⟩ | ⟨target, specs, document, hpart, hopen, hwrite, rfl⟩
  · exact ⟨Iff.rfl, fun specs hpart hopen => absurd hopen (hclosed part specs hpart),
      fun _ => rfl⟩
  · refine ⟨isOpen_put .., fun other hother _ => ?_, fun hclosed => part_put_of_ne ?_ ..⟩
    · obtain ⟨rfl, rfl⟩ : target = part ∧ specs = other := by simpa [hpart] using hother
      rw [hwrite, part_put_self]
    · rintro rfl
      exact hclosed specs hpart hopen

/-! ## Finishing a round -/

/-- A finished round adds a sample with its time to the history of its container: its document with
the interfaces in their place. -/
theorem finish_eq_ok_iff {policy : Retention} {finished : Container} :
    round.finish policy = .ok finished ↔
      ∃ document, round.document.set Template.interfacesPath
          (.list (Keyed.values round.interfaces)) = .ok document ∧
        finished = round.container.push policy ⟨round.timestamp, document⟩ := by
  simp only [finish, sample, Outcome.bind_eq_ok_iff, Outcome.pure_eq_ok_iff]
  constructor
  · rintro ⟨_, ⟨document, hdocument, rfl⟩, rfl⟩
    exact ⟨document, hdocument, rfl⟩
  · rintro ⟨document, hdocument, rfl⟩
    exact ⟨_, ⟨document, hdocument, rfl⟩, rfl⟩

end ContainerFeed.Round
