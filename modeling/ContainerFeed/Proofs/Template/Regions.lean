import ContainerFeed.Proofs.Template.Skeletons
import ContainerFeed.Template
import Mathlib.Data.List.Pairwise

/-!
# The regions of a template

Cutting a template into its regions keeps what holds of all its maps, and leaves known nodes where
elements have been cut out. A region that is compiled has all its specs in its table, and its
skeleton differs from its document only at their places.
-/

namespace ContainerFeed.Template

open Node (SameWay)

-- The steps of a path are only ever compared, never computed, in this file.
attribute [local irreducible] Path.segments

/-! ## Cutting -/

/-- An element that is cut was the only one of its list, which has been replaced. -/
theorem cutElement_eq_ok {document replacement element rest : Node} {path : String}
    (h : cutElement document path replacement = .ok (element, rest)) :
    document.replace path replacement = .ok (.list [element], rest) := by
  unfold cutElement at h
  split at h
  · simp at h
  · rename_i found remaining hreplace
    obtain ⟨rfl, rfl⟩ : found = element ∧ remaining = rest := by simpa using h
    exact hreplace
  · simp at h
  · simp at h

/-- What holds of all maps of a document holds of the element that is cut out, and of the rest. -/
theorem everywhere_cutElement {P : List (String × Node) → Prop}
    (hP : ∀ fields key value old, P fields → Keyed.get? key fields = some old →
      P (Keyed.insert key value fields))
    {document replacement element rest : Node} {path : String} (hdocument : document.Everywhere P)
    (hreplacement : replacement.Everywhere P)
    (h : cutElement document path replacement = .ok (element, rest)) :
    element.Everywhere P ∧ rest.Everywhere P := by
  obtain ⟨helement, hrest⟩ :=
    Node.Everywhere.editAt_replace hP hreplacement hdocument (cutElement_eq_ok h)
  exact ⟨Node.everywhere_list_iff.mp helement element (by simp), hrest⟩

/-- The replacement stands where the element has been cut out. -/
theorem follow?_of_cutElement {document replacement element rest : Node} {path : String}
    (h : cutElement document path replacement = .ok (element, rest)) :
    rest.follow? (Path.segments path) = some replacement :=
  Node.follow?_of_replace (cutElement_eq_ok h)

/-- Documents as they are read and cut: ordered, and with plain keys. -/
structure Tidy (document : Node) : Prop where
  ordered : document.Ordered
  keys : document.PlainKeys

/-- Cutting a tidy document leaves it tidy, and the element is tidy, too. -/
theorem tidy_cutElement {document replacement element rest : Node} {path : String}
    (hdocument : Tidy document) (hreplacement : Tidy replacement)
    (h : cutElement document path replacement = .ok (element, rest)) :
    Tidy element ∧ Tidy rest := by
  obtain ⟨hordered, hkeys⟩ := hdocument
  obtain ⟨hordered', hkeys'⟩ := hreplacement
  rw [Node.ordered_iff_everywhere] at hordered hordered'
  obtain ⟨helement, hrest⟩ := everywhere_cutElement
    (fun fields key value _ hasc _ => Keyed.ascending_insert key value hasc) hordered hordered' h
  have hplain (fields : List (String × Node)) (key : String) (value old : Node)
      (hfields : ∀ entry ∈ fields, Path.PlainStep entry.1)
      (hold : Keyed.get? key fields = some old) :
      ∀ entry ∈ Keyed.insert key value fields, Path.PlainStep entry.1 := by
    intro entry hentry
    rcases Keyed.mem_of_mem_insert hentry with rfl | hentry
    · exact hfields (key, old) (Keyed.mem_of_get? hold)
    · exact hfields entry hentry
  obtain ⟨helementkeys, hrestkeys⟩ := everywhere_cutElement hplain hkeys hkeys' h
  exact ⟨⟨(Node.ordered_iff_everywhere _).mpr helement, helementkeys⟩,
    ⟨(Node.ordered_iff_everywhere _).mpr hrest, hrestkeys⟩⟩

/-- The regions of a tidy template are tidy. The container has a place for its samples, and the
sample has one for its interfaces. -/
theorem cutRegions_eq_ok {document container sample interface : Node} (hdocument : Tidy document)
    (h : cutRegions document = .ok (container, sample, interface)) :
    Tidy container ∧ Tidy sample ∧ Tidy interface ∧
      container.follow? (Path.segments samplesPath) = some (.list []) ∧
      sample.follow? (Path.segments interfacesPath) = some .emptyMap := by
  have hlist : Tidy (.list []) := ⟨trivial, trivial⟩
  have hmap : Tidy .emptyMap := ⟨⟨Keyed.ascending_nil, trivial⟩, ⟨by simp, trivial⟩⟩
  unfold cutRegions at h
  split at h
  · simp [Outcome.bind_eq_ok_iff] at h
  obtain ⟨⟨whole, rest⟩, hsample, h⟩ := Outcome.bind_eq_ok_iff.mp h
  obtain ⟨⟨element, remaining⟩, hinterface, h⟩ := Outcome.bind_eq_ok_iff.mp h
  obtain ⟨rfl, rfl, rfl⟩ : rest = container ∧ remaining = sample ∧ element = interface := by
    simpa using Outcome.pure_eq_ok_iff.mp h
  obtain ⟨hwhole, hcontainer⟩ := tidy_cutElement hdocument hlist hsample
  obtain ⟨helement, hremaining⟩ := tidy_cutElement hwhole hmap hinterface
  exact ⟨hcontainer, hremaining, helement, follow?_of_cutElement hsample,
    follow?_of_cutElement hinterface⟩

/-! ## Compiling -/

/-- The regions of a compiled template are compiled from the regions of its document. -/
theorem regions_of_compile {source : String} {document container sample interface : Node}
    {template : Template} (hparsed : Node.parse? source = some document)
    (hcut : cutRegions document = .ok (container, sample, interface))
    (hcompile : compile source = .ok template) :
    Region.compile container = .ok template.container ∧
      Region.compile sample = .ok template.sample ∧
      Region.compile interface = .ok template.interface := by
  have hdocument : ofDocument document = .ok template := by
    simpa only [compile, hparsed] using hcompile
  simp only [ofDocument, hcut, Outcome.bind_eq_ok_iff, Outcome.mapError_eq_ok_iff,
    Outcome.pure_eq_ok_iff] at hdocument
  obtain ⟨_, hsame, c, hc, s, hs, i, hi, rfl⟩ := hdocument
  obtain rfl := Except.ok.inj hsame
  exact ⟨hc, hs, hi⟩

/-- The specs of a region; none when one of them cannot be read. -/
def found (document : Node) : List Spec :=
  (specsOf document).toOption.getD []

/-- A region as it is compiled from a document: every spec of the table stands at its place in the
document, which its target spells in the only way, the places part from each other, and the
skeleton has a default in each of them. -/
structure Region.FitsIn (region : Region) (document : Node) : Prop where
  sound : region.mapping.Sound
  found : ∀ spec ∈ region.mapping.specs, spec.bare ∈ Template.found document
  spelt : ∀ spec ∈ region.mapping.specs,
    spec.target = (Path.segments spec.target).foldl Path.join Path.root
  stands : ∀ spec ∈ region.mapping.specs, Path.segments spec.target ≠ [] ∧
    ∃ node, document.follow? (Path.segments spec.target) = some node ∧ Spec.isSpec node = true
  apart : region.mapping.specs.Pairwise fun a b =>
    document.Apart (Path.segments a.target) (Path.segments b.target)
  defaults : applyDefaults document region.mapping.specs = .ok region.skeleton

variable {document : Node} {region : Region}

/-- A tidy region fits in its document, when it is not itself a spec and no source looks like an
alias key. -/
theorem Region.fitsIn_of_compile (hdocument : Tidy document)
    (hroot : Spec.isSpec document = false)
    (hsources : ∀ spec ∈ Template.found document, ¬ Table.LooksAlias spec.source)
    (h : Region.compile document = .ok region) : region.FitsIn document := by
  obtain ⟨specs, hspecs, h⟩ := Outcome.bind_eq_ok_iff.mp h
  obtain ⟨skeleton, hskeleton, h⟩ := Outcome.bind_eq_ok_iff.mp h
  obtain rfl := Outcome.pure_eq_ok_iff.mp h
  have hfound : Template.found document = specs := by
    rw [Template.found, hspecs]
    rfl
  rw [hfound] at hsources
  have hposition {spec : Spec} (hspec : spec ∈ specs) :=
    position_of_mem_specsOf hdocument.keys hspecs hspec
  obtain ⟨hsound, hperm⟩ := Table.sound_ofSpecs (fun spec hspec =>
    (⟨hsources spec hspec, (hposition hspec).2.1⟩ :
      ¬ Table.LooksAlias spec.source ∧ spec.aliases = []))
  have hbare {spec : Spec} (hspec : spec ∈ (Table.ofSpecs specs).specs) : spec.bare ∈ specs :=
    hperm.subset (List.mem_map.mpr ⟨spec, hspec, rfl⟩)
  have hnotroot {spec : Spec} (hspec : spec ∈ (Table.ofSpecs specs).specs) :
      Path.segments spec.target ≠ [] := by
    have htarget := segments_target_ne_nil hdocument.keys hroot hspecs (hbare hspec)
    exact htarget
  have hdefaults := Outcome.mapError_eq_ok_iff.mp hskeleton
  have haccepts := accepts_of_applyDefaults (fun _ => hnotroot) hdefaults
  refine ⟨hsound, fun _ hspec => hfound ▸ hbare hspec, fun _ hspec => (hposition (hbare hspec)).1,
    fun spec hspec => ⟨hnotroot hspec, ?_⟩, ?_, hdefaults⟩
  · obtain ⟨_, _, node, hplace, hnode⟩ := hposition (hbare hspec)
    have hfollow := Node.follow?_of_mem_positions hdocument.ordered hplace (haccepts spec hspec)
    exact ⟨node, hfollow, hnode⟩
  · have hwritable {spec : Spec} (hspec : spec ∈ specs) :
        document.Accepts (Path.segments spec.target) := by
      obtain ⟨entered, hentered, rfl⟩ := List.mem_map.mp (hperm.symm.subset hspec)
      exact haccepts entered hentered
    have hpairs : specs.Pairwise fun a b =>
        document.Apart (Path.segments a.target) (Path.segments b.target) :=
      (pairwise_specsOf hdocument.ordered hdocument.keys hspecs).imp_of_mem
        fun _ hb hab => hab (hwritable hb)
    have hbares := (hperm.pairwise_iff fun hab => Node.Apart.symm hab).mpr hpairs
    exact (List.pairwise_map.mp hbares).imp fun hab => hab

namespace Region.FitsIn

variable (h : region.FitsIn document)

include h

/-- The document of a region has the places of its specs. -/
theorem accepts {spec : Spec} (hspec : spec ∈ region.mapping.specs) :
    document.Accepts (Path.segments spec.target) :=
  accepts_of_applyDefaults (fun spec hspec => (h.stands spec hspec).1) h.defaults spec hspec

/-- The skeleton has the ways of the document that no spec lies above. -/
theorem sameWay {p : List String} (haccepts : document.Accepts p)
    (hnot : ∀ spec ∈ region.mapping.specs,
      ¬ document.Above (Path.segments spec.target) p) :
    SameWay p document region.skeleton :=
  (applyDefaults_spec (fun spec hspec => (h.stands spec hspec).1) h.apart h.defaults).1
    p haccepts hnot

/-- Different specs stand at places that part from each other. -/
theorem apart_of_ne {a b : Spec} (ha : a ∈ region.mapping.specs) (hb : b ∈ region.mapping.specs)
    (hne : a ≠ b) : document.Apart (Path.segments a.target) (Path.segments b.target) := by
  have : Std.Symm fun a b : Spec =>
      document.Apart (Path.segments a.target) (Path.segments b.target) :=
    ⟨fun _ _ hab => Node.Apart.symm hab⟩
  exact h.apart.forall ha hb hne

/-- The skeleton of a region has the ways of its document to the places of specs. -/
theorem sameWay_target {spec : Spec} (hspec : spec ∈ region.mapping.specs) :
    SameWay (Path.segments spec.target) document region.skeleton := by
  refine h.sameWay (h.accepts hspec) fun other hother => ?_
  by_cases heq : other = spec
  · rw [heq]
    exact Node.not_above_self _ _
  · exact (h.apart_of_ne hother hspec heq).not_above

/-- The default of every spec stands in the skeleton. -/
theorem defaultStands {spec : Spec} (hspec : spec ∈ region.mapping.specs) :
    DefaultStands region.skeleton spec :=
  (applyDefaults_spec (fun spec hspec => (h.stands spec hspec).1) h.apart h.defaults).2.2
    spec hspec

/-- The places of two specs part in the skeleton. -/
theorem skeleton_apart {a b : Spec} (ha : a ∈ region.mapping.specs)
    (hb : b ∈ region.mapping.specs) (hne : a ≠ b) :
    region.skeleton.Apart (Path.segments a.target) (Path.segments b.target) :=
  (h.sameWay_target ha).apart (h.apart_of_ne ha hb hne)

end Region.FitsIn

end ContainerFeed.Template
