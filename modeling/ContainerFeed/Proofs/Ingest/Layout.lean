import ContainerFeed.Proofs.Ingest.Routing
import ContainerFeed.Proofs.Template.Regions

/-!
# Well laid out templates

A template is well laid out when its keys are plain, no region is itself a spec, nor is the object
that holds the interfaces of a sample, and no spec lies below a field that every round fills in.
Such a template is routable.
-/

namespace ContainerFeed

open Round (Part)

namespace Template

/-- A region is well laid out around the fields that are filled in: it is not itself a spec, no
source looks like an alias key, and no spec lies strictly below one of the fields. -/
structure Region.WellLaid (document : Node) (fields : List String) : Prop where
  root : Spec.isSpec document = false
  sources : ∀ spec ∈ found document, ¬ Table.LooksAlias spec.source
  below : ∀ spec ∈ found document, ∀ field ∈ fields,
    [field] <+: Path.segments spec.target → Path.segments spec.target = [field]

/-- The text of a template with its document and regions, all of them well laid out. -/
structure Layout (source : String) (document container sample interface : Node) : Prop where
  parsed : Node.parse? source = some document
  cut : cutRegions document = .ok (container, sample, interface)
  keys : document.PlainKeys
  network : (sample.follow? ["network"]).any Spec.isSpec = false
  ofContainer : Region.WellLaid container ["id", "name"]
  ofSample : Region.WellLaid sample ["timestamp"]
  ofInterface : Region.WellLaid interface ["name"]

/-- The text of a template is well laid out. -/
def WellLaid (source : String) : Prop :=
  ∃ document container sample interface, Layout source document container sample interface

instance (document : Node) (fields : List String) :
    Decidable (Region.WellLaid document fields) :=
  decidable_of_iff
    (Spec.isSpec document = false ∧ (∀ spec ∈ found document, ¬ Table.LooksAlias spec.source) ∧
      ∀ spec ∈ found document, ∀ field ∈ fields,
        [field] <+: Path.segments spec.target → Path.segments spec.target = [field])
    ⟨fun ⟨root, sources, below⟩ => ⟨root, sources, below⟩,
      fun ⟨root, sources, below⟩ => ⟨root, sources, below⟩⟩

instance (source : String) : Decidable (WellLaid source) :=
  match hparsed : Node.parse? source with
  | none => .isFalse fun ⟨_, _, _, _, h⟩ => by simpa [hparsed] using h.parsed
  | some document => match hcut : cutRegions document with
    | .error _ => .isFalse fun ⟨_, _, _, _, h⟩ => by
      obtain rfl := Option.some.inj (hparsed.symm.trans h.parsed)
      simpa [hcut] using h.cut
    | .ok (container, sample, interface) => decidable_of_iff
      (document.PlainKeys ∧ (sample.follow? ["network"]).any Spec.isSpec = false ∧
        Region.WellLaid container ["id", "name"] ∧ Region.WellLaid sample ["timestamp"] ∧
        Region.WellLaid interface ["name"])
      ⟨fun ⟨keys, network, ofContainer, ofSample, ofInterface⟩ => ⟨document, container, sample,
          interface, hparsed, hcut, keys, network, ofContainer, ofSample, ofInterface⟩,
        fun ⟨_, _, _, _, h⟩ => by
          obtain rfl := Option.some.inj (hparsed.symm.trans h.parsed)
          obtain ⟨rfl, rfl, rfl⟩ := by simpa [hcut] using h.cut
          exact ⟨h.keys, h.network, h.ofContainer, h.ofSample, h.ofInterface⟩⟩

/-- The stamp stands one step below the sample. -/
theorem segments_timestampPath : Path.segments Round.timestampPath = ["timestamp"] := by
  decide +kernel

/-- The interfaces stand two steps below the sample. -/
theorem segments_interfacesPath :
    Path.segments interfacesPath = ["network", "interfaces"] := by
  decide +kernel

private theorem segments_samplesPath : Path.segments samplesPath = ["stats"] := by
  decide +kernel

private theorem segments_idPath : Path.segments Container.idPath = ["id"] := by
  decide +kernel

private theorem segments_namePath : Path.segments Container.namePath = ["name"] := by
  decide +kernel

-- The steps of a path are only ever compared, never computed, from here on.
attribute [local irreducible] Path.segments

/-- The skeleton of a well laid out region keeps the places of its specs, whatever is written to
these places and to the fields. -/
theorem Region.WellLaid.keeps {region : Region} {document : Node} {fields : List String}
    (hlaid : Region.WellLaid document fields) (hfits : region.FitsIn document)
    (hfields : ∀ field ∈ fields, Text.readIndex? field = none) :
    region.skeleton.Keeps ({p | ∃ field ∈ fields, p = [field]} ∪ Region.places region.mapping.specs)
      (Region.places region.mapping.specs) := by
  rintro p ⟨spec, hspec, rfl⟩
  refine ⟨(hfits.sameWay_target hspec).accepts (hfits.accepts hspec), ?_⟩
  rintro q (⟨field, hfield, rfl⟩ | ⟨other, hother, rfl⟩) habove
  · obtain ⟨rest, htarget, hrest⟩ := Node.cons_of_singleton_above (hfields field hfield) habove
    have hbelow := hlaid.below _ (hfits.found spec hspec) field hfield
    have hsame : Path.segments spec.bare.target = field :: rest := htarget
    rw [hsame] at hbelow
    exact hrest (List.cons.inj (hbelow ⟨rest, rfl⟩)).2
  · by_cases heq : other = spec
    · rw [heq] at habove
      exact Node.not_above_self _ _ habove
    · exact (hfits.skeleton_apart hother hspec heq).not_above habove

/-- A region with something in one of its fields takes any field. -/
theorem Region.FitsIn.accepts_field {region : Region} {document inner : Node} {step : String}
    (hfits : region.FitsIn document) (hstep : Text.readIndex? step = none)
    (hinner : document.child? step = some inner) (other : String) :
    region.skeleton.Accepts [other] := by
  obtain ⟨fields, rfl⟩ := Node.exists_fields_of_child? hstep hinner
  have haccepts : (Node.map fields).Accepts [other] := ⟨trivial, fun hne => absurd rfl hne⟩
  refine (hfits.sameWay haccepts fun spec hspec habove => ?_).accepts haccepts
  exact (hfits.stands spec hspec).1 (Node.eq_nil_of_above_singleton habove)

namespace Layout

variable {source : String} {document container sample interface : Node} {template : Template}

/-- The document that a part of a round is compiled from. -/
def documentOf (container sample interface : Node) : Part → Node
  | .sample => sample
  | .interface _ => interface
  | .container => container

/-- The fields of a part that are filled in. -/
def fieldsOf : Part → List String
  | .sample => ["timestamp"]
  | .interface _ => ["name"]
  | .container => ["id", "name"]

/-- No field that is filled in is an index. -/
theorem readIndex?_of_mem_fieldsOf (part : Part) :
    ∀ field ∈ fieldsOf part, Text.readIndex? field = none := by
  have hall : ∀ field ∈ ["id", "name", "timestamp"], Text.readIndex? field = none := by
    decide +kernel
  have hsub : fieldsOf part ⊆ ["id", "name", "timestamp"] := by
    cases part <;> simp [fieldsOf]
  exact fun field hfield => hall field (hsub hfield)

variable (h : Layout source document container sample interface)

include h

/-- A document that is laid out is ordered, with plain keys. -/
theorem tidy : Tidy document :=
  ⟨Node.ordered_of_parse? h.parsed, h.keys⟩

/-- In a layout every part is well laid out around its own fields. -/
theorem region (part : Part) :
    Region.WellLaid (documentOf container sample interface part) (fieldsOf part) := by
  cases part with
  | sample => exact h.ofSample
  | interface name => exact h.ofInterface
  | container => exact h.ofContainer

/-- A sample has an object under `network`. -/
private theorem exists_network : ∃ network, sample.child? "network" = some network := by
  obtain ⟨_, _, _, _, hinterfaces⟩ := cutRegions_eq_ok h.tidy h.cut
  rw [segments_interfacesPath] at hinterfaces
  cases hchild : sample.child? "network" with
  | some network => exact ⟨network, rfl⟩
  | none => simp [Node.follow?, hchild] at hinterfaces

variable (hcompile : compile source = .ok template)

include hcompile

/-- The compiled regions fit in their documents. -/
theorem fitsIn (part : Part) :
    (part.region template).FitsIn (documentOf container sample interface part) := by
  obtain ⟨hcontainer, hsample, hinterface, _, _⟩ := cutRegions_eq_ok h.tidy h.cut
  obtain ⟨hc, hs, hi⟩ := regions_of_compile h.parsed h.cut hcompile
  cases part with
  | sample => exact Region.fitsIn_of_compile hsample h.ofSample.root h.ofSample.sources hs
  | interface name =>
    exact Region.fitsIn_of_compile hinterface h.ofInterface.root h.ofInterface.sources hi
  | container =>
    exact Region.fitsIn_of_compile hcontainer h.ofContainer.root h.ofContainer.sources hc

/-- No spec lies above the interfaces of a sample. -/
theorem not_above_interfaces {spec : Spec} (hspec : spec ∈ template.sample.mapping.specs) :
    ¬ sample.Above (Path.segments spec.target) ["network", "interfaces"] := by
  intro habove
  have hfits : template.sample.FitsIn sample := h.fitsIn hcompile .sample
  obtain ⟨hroot, node, hnode, hisspec⟩ := hfits.stands spec hspec
  generalize Path.segments spec.target = q at hroot hnode habove
  cases q with
  | nil => exact hroot rfl
  | cons s q =>
    obtain ⟨hsame, child, hchild, hbelow⟩ := habove
    obtain ⟨fields, hfields⟩ := Node.exists_fields_of_child? (by decide +kernel) hchild
    obtain rfl : q = [] := Node.eq_nil_of_above_singleton hbelow
    obtain rfl : s = "network" := by simpa [hfields, Node.SameChild] using hsame
    have hnot := h.network
    rw [hnode, Option.any_some, hisspec] at hnot
    exact absurd hnot (by simp)

/-- The way to the interfaces of a sample is that of its document. -/
theorem sameWay_interfaces :
    Node.SameWay ["network", "interfaces"] sample template.sample.skeleton := by
  obtain ⟨_, _, _, _, hplace⟩ := cutRegions_eq_ok h.tidy h.cut
  rw [segments_interfacesPath] at hplace
  exact (h.fitsIn hcompile .sample).sameWay (Node.accepts_of_follow? hplace)
    fun _ hspec => h.not_above_interfaces hcompile hspec

/-- A measurement finds specs of the table of its part, and they apply to it. -/
theorem mem_specs {part : Part} {m : Measurement} {group : List Spec}
    (hpart : Round.partOf? template m = some (part, group)) {spec : Spec} (hspec : spec ∈ group) :
    spec ∈ (part.region template).mapping.specs ∧ spec.appliesTo m.ns.display :=
  (h.fitsIn hcompile part).sound.of_mem_resolve? (Round.resolve?_of_partOf? hpart) hspec

/-- The places of a part are those of specs of its table. -/
theorem placesIn_subset (part : Part) (settings : Settings) (key : String) :
    template.placesIn part settings key ⊆
      Region.places (part.region template).mapping.specs := by
  rintro p ⟨m, _, group, hpart, spec, hspec, rfl⟩
  exact ⟨spec, (h.mem_specs hcompile hpart hspec).1, rfl⟩

/-- The skeleton of a part keeps the places of its specs, and those that are written last. -/
theorem keeps (part : Part) :
    (part.skeleton template).Keeps
      (part.filledIn ∪ Region.places (part.region template).mapping.specs)
      (part.reserved ∪ Region.places (part.region template).mapping.specs) := by
  have hspecs := (h.region part).keeps (h.fitsIn hcompile part)
    (readIndex?_of_mem_fieldsOf part)
  have hfilled : part.filledIn ⊆ {p | ∃ field ∈ fieldsOf part, p = [field]} := by
    cases part <;> simp [Part.filledIn, fieldsOf, segments_timestampPath, segments_idPath,
      segments_namePath, Round.nameField, Set.insert_subset_iff]
  rintro p (hp | hp)
  · cases part with
    | interface name => exact hp.elim
    | container => exact hp.elim
    | sample =>
      obtain rfl : p = ["network", "interfaces"] := hp.trans segments_interfacesPath
      have hway := h.sameWay_interfaces hcompile
      obtain ⟨_, _, _, _, hplace⟩ := cutRegions_eq_ok h.tidy h.cut
      rw [segments_interfacesPath] at hplace
      refine ⟨hway.accepts (Node.accepts_of_follow? hplace), ?_⟩
      rintro q (hq | ⟨spec, hspec, rfl⟩) habove
      · obtain rfl : q = ["timestamp"] := hq.trans segments_timestampPath
        obtain ⟨rest, hrest, _⟩ := Node.cons_of_singleton_above (by decide +kernel) habove
        simp at hrest
      · exact h.not_above_interfaces hcompile hspec (hway.symm.above habove)
  · exact hspecs.mono (Set.union_subset_union_left _ hfilled) subset_rfl p hp

/-- A well laid out template is routable. -/
theorem routable : template.Routable := by
  obtain ⟨_, _, _, hsamples, _⟩ := cutRegions_eq_ok h.tidy h.cut
  rw [segments_samplesPath, Node.follow?_singleton] at hsamples
  obtain ⟨network, hnetwork⟩ := h.exists_network
  have hcontainer (field : String) : template.container.skeleton.Accepts [field] :=
    (h.fitsIn hcompile .container).accepts_field (by decide +kernel) hsamples field
  refine ⟨?_, ?_, ?_, fun part settings key => ?_⟩
  · rw [segments_timestampPath]
    exact (h.fitsIn hcompile .sample).accepts_field (by decide +kernel) hnetwork _
  · rw [segments_idPath]
    exact hcontainer _
  · rw [segments_namePath]
    exact hcontainer _
  · have hsub := h.placesIn_subset hcompile part settings key
    exact (h.keeps hcompile part).mono (Set.union_subset_union_right _ hsub)
      (Set.union_subset_union_right _ hsub)

/-! ## The places of a sample -/

variable {spec : Spec} (hspec : spec ∈ template.sample.mapping.specs)

include hspec

/-- The interfaces of a sample part from its specs. -/
theorem apart_interfaces :
    template.sample.skeleton.Apart (Path.segments interfacesPath) (Path.segments spec.target) := by
  obtain ⟨_, _, _, _, hplace⟩ := cutRegions_eq_ok h.tidy h.cut
  obtain ⟨_, node, hnode, hisspec⟩ := (h.fitsIn hcompile .sample).stands spec hspec
  have hway := h.sameWay_interfaces hcompile
  rw [segments_interfacesPath] at hplace ⊢
  rcases Node.apart_or_below hplace hnode with hapart | habove | ⟨rest, hrest⟩
  · exact hway.apart hapart
  · exact absurd habove (h.not_above_interfaces hcompile hspec)
  · cases rest with
    | nil =>
      obtain rfl : Node.emptyMap = node := by simpa [Node.follow?] using hrest
      simp [Spec.isSpec, Spec.isFull, Node.emptyMap, Keyed.contains, Keyed.get?] at hisspec
    | cons step rest => simp [Node.follow?, Node.child?, Node.emptyMap, Keyed.get?] at hrest

/-- The time stamp of a sample parts from all specs with another target. -/
theorem apart_timestamp (hne : spec.target ≠ Round.timestampPath) :
    template.sample.skeleton.Apart (Path.segments Round.timestampPath)
      (Path.segments spec.target) := by
  have hfits := h.fitsIn hcompile .sample
  have hsegments : Path.segments spec.target ≠ ["timestamp"] := by
    intro heq
    have hspelt := hfits.spelt spec hspec
    rw [heq] at hspelt
    exact hne (hspelt.trans (by decide +kernel))
  obtain ⟨network, hnetwork⟩ := h.exists_network
  obtain ⟨fields, rfl⟩ := Node.exists_fields_of_child? (by decide +kernel) hnetwork
  have hbelow := h.ofSample.below _ (hfits.found spec hspec) "timestamp" (by simp)
  refine ((hfits.sameWay_target hspec).apart ?_).symm
  have hroot := (hfits.stands spec hspec).1
  have htarget : Path.segments spec.bare.target = Path.segments spec.target := rfl
  rw [htarget] at hbelow
  rw [segments_timestampPath]
  generalize Path.segments spec.target = p at hroot hsegments hbelow
  cases p with
  | nil => exact absurd rfl hroot
  | cons step rest =>
    rintro rfl
    exact absurd (hbelow ⟨rest, rfl⟩) hsegments

end Layout

end Template

end ContainerFeed
