import ContainerFeed.Proofs.Ingest.Parts

/-!
# Templates that never lead astray

A template is routable when the skeletons of all parts keep the places that values are written to
under all writes of a round. With such a template no round ever misses a place: every part in
progress still has the ways of its skeleton.
-/

namespace ContainerFeed

open Round (Part)

/-- The places in a part that the measurements of one container are written to. -/
def Template.placesIn (template : Template) (part : Part) (settings : Settings) (key : String) :
    Set (List String) :=
  {p | ∃ m, settings.sends key m ∧ p ∈ Round.placesOf template part m}

/-- The skeletons have the fields that are filled in for a container, and keep the places that
its measurements are written to, and those that are written last, under all writes of a round. -/
structure Template.Routable (template : Template) : Prop where
  timestamp : template.sample.skeleton.Accepts (Path.segments Round.timestampPath)
  id : template.container.skeleton.Accepts (Path.segments Container.idPath)
  name : template.container.skeleton.Accepts (Path.segments Container.namePath)
  keeps : ∀ (part : Part) settings key, (part.skeleton template).Keeps
    (part.filledIn ∪ template.placesIn part settings key)
    (part.reserved ∪ template.placesIn part settings key)

namespace Round

open Node (SameWays Narrows)

variable {template : Template} {settings : Settings} {key : String}

/-! ## New documents -/

/-- A new interface that is a map is the skeleton with its name written as a leaf. -/
theorem leafEdit_newInterface {skeleton : Node} (hmap : skeleton.isMap = true) (name : String) :
    Node.LeafEdit [nameField] skeleton (newInterface skeleton name) ∧
      (newInterface skeleton name).follow? [nameField] = some (.text name) := by
  cases skeleton with
  | map fields =>
    have henter : Node.enter "" "" nameField (.text name) (.map fields) =
      .ok ((), newInterface (.map fields) name) := rfl
    obtain ⟨hedited, hchild⟩ := Node.enter_eq_ok henter
    refine ⟨⟨hedited, fun inner hinner => ⟨.text name, ?_⟩⟩, by simpa using hchild⟩
    rw [Node.follow?_singleton, hchild] at hinner
    exact (Option.some.inj hinner).symm
  | list items => simp [Node.isMap] at hmap
  | leaf value => simp [Node.isMap] at hmap

/-- A new interface is the skeleton, or the skeleton with its name written as a leaf. -/
theorem newInterface_cases (skeleton : Node) (name : String) :
    (newInterface skeleton name = skeleton ∧ ∀ p, ¬ skeleton.Above [nameField] p) ∨
      (Node.LeafEdit [nameField] skeleton (newInterface skeleton name) ∧
        (newInterface skeleton name).follow? [nameField] = some (.text name)) := by
  cases skeleton with
  | map fields => exact .inr (leafEdit_newInterface rfl name)
  | list items =>
    refine .inl ⟨rfl, fun p habove => ?_⟩
    cases p with
    | nil => exact habove
    | cons t p =>
      obtain ⟨hsame, child, hchild, _⟩ := habove
      have hread : Text.readIndex? nameField = none := by decide +kernel
      rw [Node.SameChild, hread] at hsame
      simp [Node.child?, ← hsame] at hchild
  | leaf value =>
    refine .inl ⟨rfl, fun p habove => ?_⟩
    cases p with
    | nil => exact habove
    | cons t p =>
      obtain ⟨_, child, hchild, _⟩ := habove
      simp [Node.child?] at hchild

/-- A new interface has the ways of its skeleton that the name does not cut off. -/
theorem sameWay_newInterface {skeleton : Node} {p : List String} (haccepts : skeleton.Accepts p)
    (hnot : ¬ skeleton.Above [nameField] p) (name : String) :
    Node.SameWay p skeleton (newInterface skeleton name) := by
  rcases newInterface_cases skeleton name with ⟨hsame, _⟩ | ⟨hedit, _⟩
  · rw [hsame]
    exact haccepts.sameWay_refl
  · exact hedit.edited.sameWay haccepts hnot

/-- A new interface has no other ways. -/
theorem narrows_newInterface (skeleton : Node) (name : String) :
    Narrows {[nameField]} skeleton (newInterface skeleton name) := by
  rcases newInterface_cases skeleton name with ⟨hsame, hnot⟩ | ⟨hedit, hleaf⟩
  · rw [hsame]
    intro p hp
    exact ⟨hp, hp.sameWay_refl, by simpa using hnot p⟩
  · intro p hp
    have hway := hedit.sameWay_of_accepts hp
    refine ⟨hway.symm.accepts hp, hway, ?_⟩
    rintro q rfl habove
    exact (hway.above habove).follow?_ne_leaf hp hleaf

/-- A round starts with the stamp written into the skeleton, and with its container. -/
theorem startAt_eq_ok_iff {ref : ContainerRef} {tracked : Option Container}
    {timestamp : Timestamp} {stamp : String} {round : Round} :
    startAt template ref tracked timestamp stamp = .ok round ↔
      ∃ document container,
        template.sample.skeleton.set timestampPath (.text stamp) = .ok document ∧
        containerFor template ref tracked = .ok container ∧
        round = ⟨container, tracked.isNone, timestamp, document, [], false, 0⟩ := by
  simp only [startAt, Outcome.bind_eq_ok_iff, Outcome.pure_eq_ok_iff]
  constructor
  · rintro ⟨document, hdocument, container, hcontainer, rfl⟩
    exact ⟨document, container, hdocument, hcontainer, rfl⟩
  · rintro ⟨document, container, hdocument, hcontainer, rfl⟩
    exact ⟨document, hdocument, container, hcontainer, rfl⟩

/-- A container is discovered by writing its identifier and its name into the skeleton. -/
theorem discover_eq_ok_iff {key id : String} {skeleton : Node} {container : Container} :
    Container.discover key id skeleton = .ok container ↔
      ∃ first second, skeleton.set Container.idPath (.text id) = .ok first ∧
        first.set Container.namePath (.text key) = .ok second ∧
        container = ⟨key, id, second, []⟩ := by
  simp only [Container.discover, Outcome.bind_eq_ok_iff, Outcome.pure_eq_ok_iff]
  constructor
  · rintro ⟨first, hfirst, second, hsecond, rfl⟩
    exact ⟨first, second, hfirst, hsecond, rfl⟩
  · rintro ⟨first, second, hfirst, hsecond, rfl⟩
    exact ⟨first, hfirst, second, hsecond, rfl⟩

/-! ## What a round keeps -/

/-- In a sound round the documents in progress still have the ways of their skeletons to all
places that the measurements of the container are written to. -/
def Sound (template : Template) (settings : Settings) (key : String) (round : Round) : Prop :=
  ∀ part, round.IsOpen part →
    SameWays (part.reserved ∪ template.placesIn part settings key)
      (part.skeleton template) (round.part template part)

/-- A container can be discovered, and its document has the ways of the skeleton. -/
theorem exists_discover (h : template.Routable) (ref : ContainerRef) :
    ∃ container, Container.discover ref.key ref.id template.container.skeleton = .ok container ∧
      ∀ settings key,
        SameWays (Part.container.reserved ∪ template.placesIn .container settings key)
          template.container.skeleton container.document := by
  obtain ⟨first, hfirst⟩ := h.id.exists_set (.text ref.id)
  have hname : first.Accepts (Path.segments Container.namePath) := by
    refine (Node.accepts_iff_of_set_leaf hfirst).mpr ⟨h.name, ?_⟩
    intro habove
    have hid : Path.segments Container.idPath = ["id"] := by decide +kernel
    have hsteps : Path.segments Container.namePath = ["name"] := by decide +kernel
    rw [hid, hsteps] at habove
    obtain ⟨_, child, _, hbelow⟩ := habove
    exact hbelow rfl
  obtain ⟨second, hsecond⟩ := hname.exists_set (.text ref.key)
  refine ⟨_, discover_eq_ok_iff.mpr ⟨first, second, hfirst, hsecond, rfl⟩, fun settings key => ?_⟩
  have hkeeps := h.keeps .container settings key
  have hways := hkeeps.sameWays_set hkeeps.sameWays_refl (by simp [Part.filledIn]) hfirst
  exact hkeeps.sameWays_set hways (by simp [Part.filledIn]) hsecond

/-- A round can be started, and is sound. -/
theorem exists_startAt (h : template.Routable) (ref : ContainerRef) (tracked : Option Container)
    (timestamp : Timestamp) (stamp : String) :
    ∃ round, startAt template ref tracked timestamp stamp = .ok round ∧
      ∀ settings key, round.Sound template settings key := by
  obtain ⟨document, hdocument⟩ := h.timestamp.exists_set (.text stamp)
  obtain ⟨container, hcontainer, hways⟩ : ∃ container,
      containerFor template ref tracked = .ok container ∧ ∀ settings key, tracked.isNone →
        SameWays (Part.container.reserved ∪ template.placesIn .container settings key)
          template.container.skeleton container.document := by
    cases tracked with
    | some container => exact ⟨container, rfl, by simp⟩
    | none =>
      obtain ⟨container, hcontainer, hways⟩ := exists_discover h ref
      exact ⟨container, hcontainer, fun settings key _ => hways settings key⟩
  refine ⟨_, startAt_eq_ok_iff.mpr ⟨document, container, hdocument, hcontainer, rfl⟩, ?_⟩
  intro settings key part hopen
  have hkeeps := h.keeps part settings key
  cases part with
  | sample => exact hkeeps.sameWays_set hkeeps.sameWays_refl (by simp [Part.filledIn]) hdocument
  | container => exact hways settings key hopen
  | interface name =>
    intro p hp
    obtain ⟨haccepts, hnot⟩ := hkeeps p hp
    exact sameWay_newInterface haccepts (hnot _ (by simp [Part.filledIn])) name

/-- What a measurement of a container is written to is among the places of the container. -/
theorem places_subset_placesIn {m : Measurement} (hm : settings.sends key m) {part : Part}
    {specs : List Template.Spec} (hpart : partOf? template m = some (part, specs)) :
    Template.Region.places specs ⊆ template.placesIn part settings key :=
  fun _ hp => ⟨m, hm, specs, hpart, hp⟩

/-- In a sound round every measurement of the container can be written, and the round stays
sound. -/
theorem Sound.exists_write (h : template.Routable) {round : Round}
    (hround : round.Sound template settings key) {m : Measurement} (hm : settings.sends key m) :
    ∃ next, round.write template m = .ok next ∧ next.Sound template settings key := by
  have htargets (part : Part) (specs : List Template.Spec)
      (hpart : partOf? template m = some (part, specs)) (hopen : round.IsOpen part) :
      ∃ document, Template.Region.writeTargets (round.part template part) specs m.value.scalar =
          .ok document ∧
        SameWays (part.reserved ∪ template.placesIn part settings key)
          (part.skeleton template) document := by
    have hsub := places_subset_placesIn hm hpart
    exact Template.Region.exists_writeTargets (h.keeps part settings key) (hround part hopen)
      (hsub.trans Set.subset_union_right) (hsub.trans Set.subset_union_right) m.value.scalar
  obtain ⟨next, hnext⟩ := Round.exists_write fun part specs hpart hopen =>
    (htargets part specs hpart hopen).imp fun _ hdocument => hdocument.1
  refine ⟨next, hnext, fun part hopen => ?_⟩
  obtain ⟨hstill, hwritten, hother⟩ := write_eq_ok hnext part
  rw [hstill] at hopen
  by_cases hpart : ∃ specs, partOf? template m = some (part, specs)
  · obtain ⟨specs, hpart⟩ := hpart
    obtain ⟨document, hdocument, hways⟩ := htargets part specs hpart hopen
    rw [hwritten specs hpart hopen, Except.ok.injEq] at hdocument
    exact hdocument ▸ hways
  · rw [hother fun specs hspecs => absurd ⟨specs, hspecs⟩ hpart]
    exact hround part hopen

/-- A sound round can be finished. -/
theorem Sound.exists_finish (h : template.Routable) {round : Round}
    (hround : round.Sound template settings key) (policy : Retention) :
    ∃ container, round.finish policy = .ok container := by
  obtain ⟨document, hdocument⟩ : ∃ document,
      round.document.set Template.interfacesPath (.list (Keyed.values round.interfaces)) =
        .ok document :=
    (h.keeps .sample settings key).exists_set (hround .sample trivial)
      (by simp [Part.reserved]) _
  exact ⟨_, finish_eq_ok_iff.mpr ⟨document, hdocument, rfl⟩⟩

/-! ## What a round cannot gain -/

/-- The documents of a new round have no ways that their skeletons do not have. -/
theorem narrows_startAt {ref : ContainerRef} {timestamp : Timestamp} {stamp : String}
    {round : Round} (h : startAt template ref none timestamp stamp = .ok round) (part : Part) :
    round.IsOpen part ∧
      Narrows part.filledIn (part.skeleton template) (round.part template part) := by
  obtain ⟨document, container, hdocument, hcontainer, rfl⟩ := startAt_eq_ok_iff.mp h
  cases part with
  | sample => exact ⟨trivial, Node.narrows_set_leaf hdocument⟩
  | interface name => exact ⟨trivial, narrows_newInterface _ name⟩
  | container =>
    obtain ⟨first, second, hfirst, hsecond, rfl⟩ := discover_eq_ok_iff.mp hcontainer
    refine ⟨rfl, ?_⟩
    exact ((Node.narrows_set_leaf hfirst).trans (Node.narrows_set_leaf hsecond)).mono
      (by simp [Part.filledIn, Set.insert_subset_iff])

/-- A measurement that has been written closes what lies below its places, which could be written
before. -/
theorem narrows_write {round next : Round} {m : Measurement}
    (h : round.write template m = .ok next) {part : Part} (hopen : round.IsOpen part) :
    next.IsOpen part ∧
    Narrows (placesOf template part m) (round.part template part) (next.part template part) ∧
    ∀ p ∈ placesOf template part m, (round.part template part).Accepts p := by
  obtain ⟨hstill, hwritten, hother⟩ := write_eq_ok h part
  refine ⟨hstill.mpr hopen, ?_⟩
  by_cases hpart : ∃ specs, partOf? template m = some (part, specs)
  · obtain ⟨specs, hpart⟩ := hpart
    have htargets := hwritten specs hpart hopen
    have hsame {p : List String} (hp : p ∈ placesOf template part m) :
        p ∈ Template.Region.places specs := by
      obtain ⟨found, hfound, hp⟩ := hp
      obtain rfl : found = specs := by simpa [hpart] using hfound.symm
      exact hp
    refine ⟨(Template.Region.narrows_writeTargets htargets).mono fun p hp => hsame hp, ?_⟩
    exact fun p hp => Template.Region.accepts_of_writeTargets htargets (hsame hp)
  · have hnone {p : List String} (hp : p ∈ placesOf template part m) : False := by
      obtain ⟨specs, hspecs, _⟩ := hp
      exact hpart ⟨specs, hspecs⟩
    rw [hother fun specs hspecs => absurd ⟨specs, hspecs⟩ hpart]
    exact ⟨(Node.narrows_refl _).mono fun p hp => (hnone hp).elim, fun p hp => (hnone hp).elim⟩

end Round

end ContainerFeed
