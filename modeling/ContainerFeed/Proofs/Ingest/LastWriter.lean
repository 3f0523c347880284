import ContainerFeed.Proofs.Ingest.Kept
import ContainerFeed.Proofs.Ingest.Layout
import ContainerFeed.Proofs.Ingest.PathFailures

/-!
# The last writer

The measurements of a batch that are kept for a container are written to its sample one after
another. With a well laid out template each of them changes exactly the places of the specs that
take it. So every place of a finished sample shows the last of its measurements, or else its
default.
-/

namespace ContainerFeed

open Round (Part)
open Node (SameWay SameWays)

-- The steps of a path are only ever compared, never computed, in this file.
attribute [local irreducible] Path.segments

namespace Template

/-- A spec takes a measurement when it applies to its namespace. -/
def Spec.takes (spec : Spec) (m : Measurement) : Bool :=
  spec.appliesTo m.ns.display

/-- The last of some measurements that a spec takes. -/
def Spec.latest? (spec : Spec) (ms : List Measurement) : Option Measurement :=
  (ms.filter spec.takes).getLast?

/-- The last value among later measurements counts, and else that of the first one. -/
theorem Spec.latest?_cons (spec : Spec) (m : Measurement) (ms : List Measurement) :
    spec.latest? (m :: ms) = (spec.latest? ms).or (if spec.takes m then some m else none) := by
  unfold latest?
  by_cases htakes : spec.takes m = true
  · rw [List.filter_cons_of_pos htakes, List.getLast?_cons, if_pos htakes]
    cases (ms.filter spec.takes).getLast? <;> rfl
  · rw [List.filter_cons_of_neg htakes, if_neg htakes, Option.or_none]

/-- A document shows the default of a spec at its target, and without a default nothing in a map
and null in a list. -/
def Spec.DefaultShownBy (spec : Spec) (document : Node) : Prop :=
  match spec.default with
  | some value => document.seek spec.target = .ok (.leaf value)
  | none => ∃ parent, document.seek (Path.parentAndLeaf spec.target).1 = .ok parent ∧
      document.seek spec.target =
        if parent.isMap then .error (.notFound spec.target) else .ok (.leaf .null)

/-- A document shows a spec after some measurements: at its target stands the value of the last
one it takes, or its default if there is none. -/
def Spec.ShownBy (spec : Spec) (document : Node) (ms : List Measurement) : Prop :=
  match spec.latest? ms with
  | some m => document.seek spec.target = .ok (.leaf m.value.scalar)
  | none => spec.DefaultShownBy document

/-- No measurement is taken by specs of a table with different sources. -/
def Table.Unambiguous (table : Table) (batch : List Measurement) : Prop :=
  ∀ m ∈ batch, ∀ a ∈ table.specs, ∀ b ∈ table.specs, a.takes m → b.takes m → a.source = b.source

instance (table : Table) (batch : List Measurement) : Decidable (table.Unambiguous batch) :=
  inferInstanceAs (Decidable (∀ m ∈ batch, ∀ a ∈ table.specs, ∀ b ∈ table.specs,
    a.takes m → b.takes m → a.source = b.source))

/-- In an unambiguous table a measurement finds exactly the specs that take it. -/
theorem Table.Sound.exists_resolve?_iff {table : Table} (htable : table.Sound)
    {m : Measurement} (hone : table.Unambiguous [m]) {spec : Spec} (hspec : spec ∈ table.specs) :
    (∃ group, table.resolve? m.ns.display = some group ∧ spec ∈ group) ↔ spec.takes m = true := by
  constructor
  · rintro ⟨group, hgroup, hmem⟩
    exact (htable.of_mem_resolve? hgroup hmem).2
  · intro htakes
    exact htable.mem_resolve? hspec htakes fun other hother hother' =>
      hone m (by simp) other hother spec hspec hother' htakes

/-! ## Filling a document of a region -/

namespace Region

/-- A document of a region after one more measurement: the value is written to the specs that are
found for it. -/
def fill (region : Region) (document : Node) (m : Measurement) : Except PathError Node :=
  match region.mapping.resolve? m.ns.display with
  | some group => writeTargets document group m.value.scalar
  | none => .ok document

namespace FitsIn

variable {region : Region} {document old new : Node} {kept : Set (List String)}
  (hfits : region.FitsIn document)
  (hkeeps : region.skeleton.Keeps (places region.mapping.specs) kept)
  (hsub : places region.mapping.specs ⊆ kept)

include hfits hkeeps hsub

/-- Every measurement keeps the ways of the skeleton. -/
theorem sameWays_fill {m : Measurement} (hways : SameWays kept region.skeleton old)
    (h : region.fill old m = .ok new) : SameWays kept region.skeleton new := by
  unfold fill at h
  cases hgroup : region.mapping.resolve? m.ns.display with
  | none =>
    obtain rfl : old = new := by simpa [hgroup] using h
    exact hways
  | some group =>
    simp only [hgroup] at h
    have hplaces : places group ⊆ places region.mapping.specs := fun p ⟨spec, hspec, hp⟩ =>
      ⟨spec, (hfits.sound.of_mem_resolve? hgroup hspec).1, hp⟩
    obtain ⟨written, hok, hstill⟩ :=
      exists_writeTargets hkeeps hways hplaces (hplaces.trans hsub) m.value.scalar
    obtain rfl : written = new := Except.ok.inj (hok.symm.trans h)
    exact hstill

/-- A measurement changes exactly the places of the specs that take it. -/
theorem follow?_of_fill {m : Measurement} (hone : region.mapping.Unambiguous [m])
    (hways : SameWays kept region.skeleton old) (h : region.fill old m = .ok new) {spec : Spec}
    (hspec : spec ∈ region.mapping.specs) :
    new.follow? (Path.segments spec.target) =
      if spec.takes m then some (.leaf m.value.scalar)
      else old.follow? (Path.segments spec.target) := by
  have htakes := hfits.sound.exists_resolve?_iff hone hspec
  unfold fill at h
  cases hgroup : region.mapping.resolve? m.ns.display with
  | none =>
    obtain rfl : old = new := by simpa [hgroup] using h
    have hnot : ¬ spec.takes m = true := htakes.not.mp (by simp [hgroup])
    rw [if_neg hnot]
  | some group =>
    simp only [hgroup] at h
    have hmem : spec ∈ group ↔ spec.takes m = true := by simpa [hgroup] using htakes
    rw [follow?_of_writeTargets (hkeeps.mono subset_rfl hsub) (fun p hp => hways p (hsub hp))
      (fun other hother => (hfits.sound.of_mem_resolve? hgroup hother).1)
      (fun other hother => (hfits.stands other hother).1) h
      (fun a ha b hb hne => hfits.skeleton_apart ha hb hne) hspec]
    simp only [hmem]

/-- A measurement leaves a place alone that parts from those of all specs. -/
theorem follow?_of_fill_apart {m : Measurement} (hways : SameWays kept region.skeleton old)
    (h : region.fill old m = .ok new) {p : List String}
    (hapart : ∀ spec ∈ region.mapping.specs,
      region.skeleton.Apart (Path.segments spec.target) p) : new.follow? p = old.follow? p := by
  unfold fill at h
  cases hgroup : region.mapping.resolve? m.ns.display with
  | none =>
    obtain rfl : old = new := by simpa [hgroup] using h
    rfl
  | some group =>
    simp only [hgroup] at h
    exact follow?_of_writeTargets_apart (hkeeps.mono subset_rfl hsub)
      (fun p hp => hways p (hsub hp))
      (fun other hother => (hfits.sound.of_mem_resolve? hgroup hother).1)
      (fun other hother => (hfits.stands other hother).1) h hapart

/-- After a run of measurements the place of every spec holds the last value written there, or else
what it has held before, and a place that parts from those of all specs has not changed. -/
theorem follow?_of_fills {ms : List Measurement} (hone : region.mapping.Unambiguous ms)
    (hways : SameWays kept region.skeleton old) (h : ms.foldlM region.fill old = .ok new) :
    SameWays kept region.skeleton new ∧
      (∀ spec ∈ region.mapping.specs, new.follow? (Path.segments spec.target) =
        ((spec.latest? ms).map fun m => Node.leaf m.value.scalar).or
          (old.follow? (Path.segments spec.target))) ∧
      ∀ p, (∀ spec ∈ region.mapping.specs, region.skeleton.Apart (Path.segments spec.target) p) →
        new.follow? p = old.follow? p := by
  induction ms generalizing old with
  | nil =>
    obtain rfl := Outcome.foldlM_nil_eq_ok_iff.mp h
    exact ⟨hways, fun spec _ => by simp [Spec.latest?], fun _ _ => rfl⟩
  | cons m ms ih =>
    obtain ⟨next, hnext, hrest⟩ := Outcome.foldlM_cons_eq_ok_iff.mp h
    have hfirst : region.mapping.Unambiguous [m] := fun other hother =>
      hone other (by simp_all)
    obtain ⟨hfinal, hshown, hothers⟩ := ih (fun other hother => hone other (by simp [hother]))
      (hfits.sameWays_fill hkeeps hsub hways hnext) hrest
    refine ⟨hfinal, fun spec hspec => ?_, fun p hapart => ?_⟩
    · rw [hshown spec hspec, hfits.follow?_of_fill hkeeps hsub hfirst hways hnext hspec,
        Spec.latest?_cons, Option.map_or, Option.or_assoc]
      congr 1
      split <;> rfl
    · rw [hothers p hapart, hfits.follow?_of_fill_apart hkeeps hsub hways hnext hapart]

end FitsIn

end Region

end Template

namespace Round

variable {source : String} {document container sample interface : Node} {template : Template}

/-- Measurements fill the sample as they fill a document of its region. -/
theorem fills_of_writes {ms : List Measurement} {round last : Round}
    (h : ms.foldlM (fun round m => round.write template m) round = .ok last) :
    ms.foldlM template.sample.fill round.document = .ok last.document := by
  induction ms generalizing round with
  | nil =>
    obtain rfl := Outcome.foldlM_nil_eq_ok_iff.mp h
    rfl
  | cons m ms ih =>
    obtain ⟨next, hnext, hrest⟩ := Outcome.foldlM_cons_eq_ok_iff.mp h
    refine Outcome.foldlM_cons_eq_ok_iff.mpr ⟨next.document, ?_, ih hrest⟩
    obtain ⟨_, hwritten, hother⟩ := write_eq_ok hnext .sample
    unfold Template.Region.fill
    cases hgroup : template.sample.mapping.resolve? m.ns.display with
    | some group => exact hwritten group (partOf?_eq_sample_iff.mpr hgroup) trivial
    | none =>
      refine congrArg Except.ok (hother fun specs hspecs => ?_).symm
      simp [partOf?_eq_sample_iff, hgroup] at hspecs

/-- The places of a sample that no write of a round cuts off. -/
def samplePlaces (template : Template) : Set (List String) :=
  Part.sample.reserved ∪ Template.Region.places template.sample.mapping.specs

variable (hlaid : Template.Layout source document container sample interface)
  (hcompile : Template.compile source = .ok template)

include hlaid hcompile

/-- A new sample has the ways of the skeleton, and at every place of a spec but that of the time
stamp what the skeleton has there. -/
theorem sample_startAt {ref : ContainerRef} {tracked : Option Container} {timestamp : Timestamp}
    {stamp : String} {round : Round}
    (h : startAt template ref tracked timestamp stamp = .ok round) :
    SameWays (samplePlaces template) template.sample.skeleton round.document ∧
      ∀ spec ∈ template.sample.mapping.specs, spec.target ≠ timestampPath →
        round.document.follow? (Path.segments spec.target) =
          template.sample.skeleton.follow? (Path.segments spec.target) := by
  obtain ⟨first, _, hset, _, rfl⟩ := startAt_eq_ok_iff.mp h
  have hkeeps := hlaid.keeps hcompile .sample
  refine ⟨hkeeps.sameWays_set hkeeps.sameWays_refl (by simp [Part.filledIn]) hset, ?_⟩
  intro spec hspec hne
  have hapart := hlaid.apart_timestamp hcompile hspec hne
  have hroot : Path.segments timestampPath ≠ [] := by
    intro hnil
    rw [hnil] at hapart
    exact hapart
  exact (Node.editedAt_of_set hset hroot).1.follow?_eq hapart

/-- After a run of measurements every place of a sample holds the last value written there, or
else what it has held before. -/
theorem sample_writes {ms : List Measurement} (hone : template.sample.mapping.Unambiguous ms)
    {round last : Round}
    (hways : SameWays (samplePlaces template) template.sample.skeleton round.document)
    (h : ms.foldlM (fun round m => round.write template m) round = .ok last) :
    SameWays (samplePlaces template) template.sample.skeleton last.document ∧
      ∀ spec ∈ template.sample.mapping.specs,
        last.document.follow? (Path.segments spec.target) =
          ((spec.latest? ms).map fun m => Node.leaf m.value.scalar).or
            (round.document.follow? (Path.segments spec.target)) := by
  have hfits : template.sample.FitsIn sample := hlaid.fitsIn hcompile .sample
  have hkeeps := (hlaid.keeps hcompile .sample).mono Set.subset_union_right subset_rfl
  obtain ⟨hfinal, hshown, _⟩ :=
    hfits.follow?_of_fills hkeeps Set.subset_union_right hone hways (fills_of_writes h)
  exact ⟨hfinal, hshown⟩

/-- A finished sample stands last in the history of its container, and has at every place of a
spec what the sample in progress has there. -/
theorem sample_finish {round : Round} {policy : Retention} {finished : Container}
    (hways : SameWays (samplePlaces template) template.sample.skeleton round.document)
    (h : round.finish policy = .ok finished) :
    ∃ latest, finished.history.getLast? = some latest ∧
      ∀ spec ∈ template.sample.mapping.specs,
        SameWay (Path.segments spec.target) template.sample.skeleton latest.document ∧
        latest.document.follow? (Path.segments spec.target) =
          round.document.follow? (Path.segments spec.target) := by
  obtain ⟨final, hset, rfl⟩ := finish_eq_ok_iff.mp h
  refine ⟨_, List.getLast?_concat, fun spec hspec => ?_⟩
  have hapart := (hways _ (.inl rfl)).apart (hlaid.apart_interfaces hcompile hspec)
  have hroot : Path.segments Template.interfacesPath ≠ [] := by
    intro hnil
    rw [hnil] at hapart
    exact hapart
  obtain ⟨hedit, _⟩ := Node.editedAt_of_set hset hroot
  have hway := hways _ (.inr ⟨spec, hspec, rfl⟩)
  have haccepts := hway.accepts
    ((hlaid.keeps hcompile .sample) _ (.inr ⟨spec, hspec, rfl⟩)).1
  exact ⟨hway.trans (hedit.sameWay haccepts hapart.not_above), hedit.follow?_eq hapart⟩

end Round

/-! ## Finished samples -/

/-- A default that stands in a document is shown by it. -/
theorem Template.DefaultStands.shownBy {spec : Template.Spec} {document : Node}
    (h : Template.DefaultStands document spec) (hroot : Path.segments spec.target ≠ []) :
    spec.DefaultShownBy document := by
  unfold Template.DefaultStands at h
  unfold Template.Spec.DefaultShownBy
  cases hdefault : spec.default with
  | some value =>
    simp only [hdefault] at h
    exact Node.seek_eq_ok_iff.mpr h
  | none =>
    simp only [hdefault] at h
    obtain ⟨parent, hparent, hplace⟩ := h
    have hsteps : (Path.segments spec.target).dropLast =
        Path.segments (Path.parentAndLeaf spec.target).1 := by
      rcases Path.segments_parentAndLeaf spec.target with ⟨_, hnil⟩ | ⟨_, hsegments⟩
      · exact absurd hnil hroot
      · rw [hsegments, List.dropLast_concat]
    rw [hsteps] at hparent
    refine ⟨parent, Node.seek_eq_ok_iff.mpr hparent, ?_⟩
    by_cases hmap : parent.isMap = true
    · rw [if_pos hmap] at hplace ⊢
      exact Node.seek_of_follow?_eq_none hplace
    · rw [if_neg hmap] at hplace ⊢
      exact Node.seek_eq_ok_iff.mpr hplace

/-- A document shows a spec when the last value it takes is found at its target, and what the
skeleton has there if there is none. -/
theorem Template.Region.FitsIn.shownBy {region : Template.Region} {document final : Node}
    (hfits : region.FitsIn document) {spec : Template.Spec} (hspec : spec ∈ region.mapping.specs)
    {ms : List Measurement} (hway : SameWay (Path.segments spec.target) region.skeleton final)
    (hplace : final.follow? (Path.segments spec.target) =
      ((spec.latest? ms).map fun m => Node.leaf m.value.scalar).or
        (region.skeleton.follow? (Path.segments spec.target))) : spec.ShownBy final ms := by
  unfold Template.Spec.ShownBy
  cases hlatest : spec.latest? ms with
  | some m =>
    simp only [hlatest, Option.map_some, Option.some_or] at hplace
    exact Node.seek_eq_ok_iff.mpr hplace
  | none =>
    simp only [hlatest, Option.map_none, Option.none_or] at hplace
    have hroot := (hfits.stands spec hspec).1
    exact ((hfits.defaultStands hspec).congr hroot hway hplace).shownBy hroot

namespace Store

/-- With a well laid out template a batch is taken in, unless a date in it overflows. Each container
that measurements are kept for gets a sample, which shows every spec, the time stamp apart, after
these measurements; all other containers are left as they were. -/
theorem ingest_shows_last_writer {source : String} {template : Template}
    (hlaid : Template.WellLaid source)
    (hcompile : Template.compile source = .ok template) (store : Store) (settings : Settings)
    {batch : List Measurement} (hone : template.sample.mapping.Unambiguous batch)
    (hdates : store.ingest template settings batch ≠ .error .dateOverflow) :
    ∃ report after, store.ingest template settings batch = .ok (report, after) ∧
      ∀ key,
        (settings.kept key batch = [] → after.get? key = store.get? key) ∧
        (settings.kept key batch ≠ [] → ∃ tracked latest,
          after.get? key = some tracked ∧ tracked.history.getLast? = some latest ∧
          ∀ spec ∈ template.sample.mapping.specs, spec.target ≠ Round.timestampPath →
            spec.ShownBy latest.document (settings.kept key batch)) := by
  obtain ⟨document, container, sample, interface, hlaid⟩ := hlaid
  have hroutable := hlaid.routable hcompile
  rcases ingest_of_routable hroutable store settings batch with
    ⟨report, after, hingest⟩ | hoverflow
  · refine ⟨report, after, hingest, fun key => ?_⟩
    obtain ⟨round, hround, hafter⟩ := get?_of_ingest hingest key
    rcases roundOf_eq_ok hround with
      ⟨hnone, rfl⟩ | ⟨hsome, ref, _, timestamp, stamp, started, last, hstarted, rfl, hwrites⟩
    · exact ⟨fun _ => hafter, fun hsome => absurd hnone hsome⟩
    · obtain ⟨tracked, hfinish, hget⟩ := hafter
      refine ⟨fun hnone => absurd hnone hsome, fun _ => ?_⟩
      obtain ⟨hways, hskeleton⟩ := Round.sample_startAt hlaid hcompile hstarted
      obtain ⟨hstill, hvalues⟩ := Round.sample_writes hlaid hcompile
        (fun m hm => hone m (Settings.mem_of_mem_kept hm)) hways hwrites
      obtain ⟨latest, hlatest, hfinal⟩ := Round.sample_finish hlaid hcompile hstill hfinish
      refine ⟨tracked, latest, hget, hlatest, fun spec hspec hne => ?_⟩
      obtain ⟨hway, hplace⟩ := hfinal spec hspec
      refine (hlaid.fitsIn hcompile .sample).shownBy hspec hway ?_
      rw [hplace, hvalues spec hspec, hskeleton spec hspec hne]
      rfl
  · exact absurd hoverflow hdates

/-- A template whose samples hold the load in a list and once more with a default. -/
def loadTemplate : Node :=
  .map [("stats", .list [.map [
    ("load", .list [.text "__tmpl:src=/load"]),
    ("network", .map [("interfaces", .list [.emptyMap])]),
    ("now", .text "__tmpl:src=/load;default=0")]])]

/-- Two loads of one container, with one of another container between them. -/
def loads : List Measurement :=
  let measured (container : String) (value : Int64) : Measurement :=
    ⟨⟨["docker", container, "load"]⟩, .int value, someTime⟩
  [measured "web" 1, measured "db" 2, measured "web" 3]

/-- The sample of the first container shows the last of its two loads in both places. -/
theorem ingest_shows_last_writer_loads :
    let settings : Settings := ⟨8777, 10, .zero, .builtin, .zero, "/docker"⟩
    (settings.kept "/web" loads).map Measurement.value = [.int 1, .int 3] ∧
    ∃ template report after tracked latest,
      Template.compile loadTemplate.render = .ok template ∧
      template.sample.mapping.specs.map Template.Spec.target = ["/load/0", "/now"] ∧
      Store.empty.ingest template settings loads = .ok (report, after) ∧
      after.get? "/web" = some tracked ∧ tracked.history.getLast? = some latest ∧
      ∀ spec ∈ template.sample.mapping.specs, spec.target ≠ Round.timestampPath →
        spec.ShownBy latest.document (settings.kept "/web" loads) := by
  intro settings
  have hkept : (settings.kept "/web" loads).map Measurement.value = [.int 1, .int 3] := by
    decide +kernel
  have hne : settings.kept "/web" loads ≠ [] := fun hnil => by simp [hnil] at hkept
  obtain ⟨hlaid, hchecked⟩ : Template.WellLaid loadTemplate.render ∧
      (Template.compile loadTemplate.render).toOption.any (fun template => decide
        (template.sample.mapping.specs.map Template.Spec.target = ["/load/0", "/now"] ∧
          template.sample.mapping.Unambiguous loads ∧
          (Store.empty.ingest template settings loads).toOption.isSome)) = true := by
    decide +kernel
  cases hcompile : Template.compile loadTemplate.render with
  | error fault => simp [hcompile, Except.toOption] at hchecked
  | ok template =>
    rw [hcompile] at hchecked
    obtain ⟨htargets, hone, hok⟩ := of_decide_eq_true hchecked
    obtain ⟨report, after, hingest, hall⟩ :=
      ingest_shows_last_writer hlaid hcompile Store.empty settings hone
        (fun hfail => by simp [hfail, Except.toOption] at hok)
    obtain ⟨tracked, latest, hget, hlatest, hshown⟩ := (hall "/web").2 hne
    exact ⟨hkept, template, report, after, tracked, latest, rfl, htargets, hingest, hget, hlatest,
      hshown⟩

end Store

end ContainerFeed
