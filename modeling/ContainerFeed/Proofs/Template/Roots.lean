import ContainerFeed.Proofs.Template.Regions

/-!
# Templates that keep the root

Values go to the targets of specs, and the target of a spec is the place it has been read from. So
no value goes over a whole document unless the document is itself a spec.
-/

namespace ContainerFeed.Template

/-- No value of a container goes over its whole document. -/
def KeepsRoot (template : Template) : Prop :=
  ∀ spec ∈ template.container.mapping.specs, Path.segments spec.target ≠ []

/-- The text of a template with plain keys that is not itself a spec. -/
def IsNoSpec (source : String) : Prop :=
  ∀ document, Node.parse? source = some document →
    document.PlainKeys ∧ Spec.isSpec document = false

/-- Cutting out the samples does not make a document a spec. -/
theorem isSpec_of_cutElement {document element rest : Node} (hmap : document.isMap = true)
    (h : cutElement document samplesPath (.list []) = .ok (element, rest)) :
    Spec.isSpec rest = Spec.isSpec document := by
  cases document with
  | list items => simp [Node.isMap] at hmap
  | leaf value => simp [Node.isMap] at hmap
  | map fields =>
    have hreplace := cutElement_eq_ok h
    have hsteps : Path.segments samplesPath = ["stats"] := by decide +kernel
    rw [Node.replace, hsteps, Node.editAt] at hreplace
    cases hchild : (Node.map fields).child? "stats" with
    | none => simp [hchild] at hreplace
    | some child =>
      simp only [hchild, Node.editAt, Except.ok.injEq, Prod.mk.injEq] at hreplace
      rw [← hreplace.2]
      have hne : Spec.marker ≠ "stats" := by decide
      simp only [Node.putChild, Spec.isSpec, Spec.isFull, Keyed.contains,
        Keyed.get?_insert_of_ne _ fields hne]

/-- The container is a spec exactly when the whole document is one. -/
theorem isSpec_of_cutRegions {document container sample interface : Node}
    (h : cutRegions document = .ok (container, sample, interface)) :
    Spec.isSpec container = Spec.isSpec document := by
  unfold cutRegions at h
  split at h
  · simp [Outcome.bind_eq_ok_iff] at h
  · rename_i hmap
    obtain ⟨⟨whole, rest⟩, hsample, h⟩ := Outcome.bind_eq_ok_iff.mp h
    obtain ⟨⟨element, remaining⟩, _, h⟩ := Outcome.bind_eq_ok_iff.mp h
    obtain ⟨rfl, _⟩ := Prod.mk.inj (Outcome.pure_eq_ok_iff.mp h)
    exact isSpec_of_cutElement (by simpa using hmap) hsample

/-- No spec of a region has the root for its target, unless the region is itself a spec. -/
theorem Region.segments_target_ne_nil {document : Node} {region : Region}
    (hkeys : document.PlainKeys) (hroot : Spec.isSpec document = false)
    (h : compile document = .ok region) {spec : Spec} (hspec : spec ∈ region.mapping.specs) :
    Path.segments spec.target ≠ [] := by
  simp only [compile, Outcome.bind_eq_ok_iff, Outcome.pure_eq_ok_iff] at h
  obtain ⟨specs, hspecs, _, _, rfl⟩ := h
  obtain ⟨found, hfound, hbare⟩ := Table.bare_of_mem_ofSpecs hspec
  have htargets : spec.bare.target = found.bare.target := congrArg Spec.target hbare
  have htarget : spec.target = found.target := htargets
  rw [htarget]
  exact Template.segments_target_ne_nil hkeys hroot hspecs hfound

/-- A template keeps the root of container documents when its text is not itself a spec. -/
theorem keepsRoot_of_compile {source : String} {template : Template} (hsource : IsNoSpec source)
    (h : compile source = .ok template) : template.KeepsRoot := by
  unfold compile at h
  split at h
  · cases h
  · rename_i document hparse
    obtain ⟨hkeys, hroot⟩ := hsource document hparse
    simp only [ofDocument, Outcome.bind_eq_ok_iff, Outcome.mapError_eq_ok_iff,
      Outcome.pure_eq_ok_iff] at h
    obtain ⟨⟨container, sample, interface⟩, hcut, region, hregion, _, _, _, _, rfl⟩ := h
    obtain ⟨hcontainer, _⟩ := cutRegions_eq_ok ⟨Node.ordered_of_parse? hparse, hkeys⟩ hcut
    have hcontainerroot : Spec.isSpec container = false := (isSpec_of_cutRegions hcut).trans hroot
    intro spec hspec
    exact Region.segments_target_ne_nil hcontainer.keys hcontainerroot hregion hspec

end ContainerFeed.Template
