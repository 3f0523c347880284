import ContainerFeed.Proofs.Ingest.InPlace
import ContainerFeed.Proofs.Ingest.Kept
import ContainerFeed.Proofs.Ingest.Routing
import ContainerFeed.Proofs.Time.Calendar
import ContainerFeed.Testkit.BatchBuilder

/-!
# Containers are written once

The batch that discovers a container writes its document. Whatever arrives later, with the same
template or another one, leaves key, identifier and document as they are and only adds to the
history: one sample with every batch that has measurements for the container.
-/

namespace ContainerFeed

open Round (Part)

/-! ## Identifiers and keys -/

/-- The key of a container tells its name. -/
theorem ContainerRef.ofName_inj {name other : String} (hname : name ≠ "") (hother : other ≠ "")
    (h : (ofName name).key = (ofName other).key) : name = other := by
  have hroot {name : String} (hne : name ≠ "") : "/" ++ name ≠ Path.root := fun heq =>
    hne (String.append_right_inj "/" |>.mp heq)
  unfold ofName at h
  split at h <;> split at h
  · rename_i hleft hright
    exact hleft.trans hright.symm
  · exact absurd h.symm (hroot hother)
  · exact absurd h (hroot hname)
  · exact String.append_right_inj "/" |>.mp h

/-- A container is named by what can be a step of a path. -/
theorem ContainerRef.classify?_eq_some {namespaceText metricPrefix : String} {ref : ContainerRef}
    (h : classify? namespaceText metricPrefix = some ref) :
    ∃ name, Path.PlainStep name ∧ ref = ofName name := by
  unfold classify? at h
  split at h
  · simp at h
  · split at h
    · simp at h
    · rename_i tail _ hstep
      refine ⟨String.ofList (firstStep tail), ⟨fun hnil => hstep ?_, fun hslash => ?_⟩,
        (Option.some.inj h).symm⟩
      · simpa using hnil
      · rw [String.toList_ofList] at hslash
        simpa using List.mem_takeWhile_imp hslash

/-- Destinations with one key are one container. -/
theorem Settings.destination?_eq_of_key_eq {settings : Settings} {m other : Measurement}
    {ref ref' : ContainerRef} (h : settings.destination? m = some ref)
    (h' : settings.destination? other = some ref') (hkey : ref.key = ref'.key) : ref = ref' := by
  obtain ⟨name, hname, rfl⟩ := ContainerRef.classify?_eq_some h
  obtain ⟨name', hname', rfl⟩ := ContainerRef.classify?_eq_some h'
  rw [ContainerRef.ofName_inj hname.1 hname'.1 hkey]

/-! ## What a round does to its container -/

/-- The specs of the container that a measurement is written to. There are none when the sample or
the interface has specs for it. -/
def Template.containerSpecs? (template : Template) (m : Measurement) :
    Option (List Template.Spec) :=
  match template.sample.mapping.resolve? m.ns.display,
    template.interface.mapping.resolve? m.ns.display with
  | none, none => template.container.mapping.resolve? m.ns.display
  | _, _ => none

/-- A container document after one more measurement of the batch that discovers the container. -/
def Template.fillContainer (template : Template) (document : Node) (m : Measurement) :
    Except PathError Node :=
  match template.containerSpecs? m with
  | some specs => Template.Region.writeTargets document specs m.value.scalar
  | none => .ok document

namespace Round

variable {template : Template} {round next last : Round} {m : Measurement}

/-- A measurement belongs to the container when only the container has specs for it. -/
theorem partOf?_eq_container_iff {specs : List Template.Spec} :
    partOf? template m = some (.container, specs) ↔ template.containerSpecs? m = some specs := by
  unfold partOf? placeOf Template.containerSpecs?
  cases template.sample.mapping.resolve? m.ns.display <;>
    cases template.interface.mapping.resolve? m.ns.display <;>
    cases template.container.mapping.resolve? m.ns.display <;> simp

/-- Writing a measurement changes at most the document of the container, and leaves the time of the
sample alone. -/
theorem frame_of_write (h : round.write template m = .ok next) :
    next.container = { round.container with document := next.container.document } ∧
      next.timestamp = round.timestamp := by
  rcases write_cases h with ⟨rfl, _⟩ | ⟨target, _, document, _, _, _, rfl⟩
  · exact ⟨rfl, rfl⟩
  · cases target <;> exact ⟨rfl, rfl⟩

/-- A measurement is written to the container document if the round has discovered the container,
and otherwise leaves that document alone. -/
theorem containerDocument_of_write (h : round.write template m = .ok next) :
    next.discovered = round.discovered ∧
      if round.discovered then
        template.fillContainer round.container.document m = .ok next.container.document
      else next.container.document = round.container.document := by
  obtain ⟨hopen, hwritten, hother⟩ := write_eq_ok h .container
  refine ⟨Bool.eq_iff_iff.mpr hopen, ?_⟩
  by_cases hdiscovered : round.discovered = true
  · rw [if_pos hdiscovered, Template.fillContainer]
    cases hspecs : template.containerSpecs? m with
    | some specs => exact hwritten specs (partOf?_eq_container_iff.mpr hspecs) hdiscovered
    | none =>
      refine congrArg Except.ok (hother fun specs hpart => ?_).symm
      simp [partOf?_eq_container_iff, hspecs] at hpart
  · rw [if_neg hdiscovered]
    exact hother fun _ _ hopen => hdiscovered hopen

/-- What all measurements of a round do to its container, one after another. -/
theorem container_of_writes {ms : List Measurement}
    (h : ms.foldlM (fun round m => round.write template m) round = .ok last) :
    last.container = { round.container with document := last.container.document } ∧
      last.timestamp = round.timestamp ∧
      if round.discovered then
        ms.foldlM template.fillContainer round.container.document = .ok last.container.document
      else last.container.document = round.container.document := by
  induction ms generalizing round with
  | nil =>
    obtain rfl := Outcome.foldlM_nil_eq_ok_iff.mp h
    refine ⟨rfl, rfl, ?_⟩
    split <;> rfl
  | cons m ms ih =>
    obtain ⟨next, hnext, hrest⟩ := Outcome.foldlM_cons_eq_ok_iff.mp h
    obtain ⟨hframe, htime⟩ := frame_of_write hnext
    obtain ⟨hdiscovered, hdocument⟩ := containerDocument_of_write hnext
    obtain ⟨hframe', htime', hdocument'⟩ := ih hrest
    refine ⟨by rw [hframe', hframe], htime'.trans htime, ?_⟩
    rw [hdiscovered] at hdocument'
    split at hdocument
    · rename_i hnew
      rw [if_pos hnew] at hdocument' ⊢
      exact Outcome.foldlM_cons_eq_ok_iff.mpr ⟨_, hdocument, hdocument'⟩
    · rename_i hold
      rw [if_neg hold] at hdocument' ⊢
      exact hdocument'.trans hdocument

end Round

/-! ## What a batch does to a container -/

/-- A container goes on as a later one with the same key, identifier and document. -/
structure Container.ContinuesAs (earlier later : Container) : Prop where
  sameKey : later.key = earlier.key
  sameId : later.id = earlier.id
  sameDocument : later.document = earlier.document

/-- A container goes on as itself. -/
theorem Container.ContinuesAs.refl (container : Container) : container.ContinuesAs container :=
  ⟨rfl, rfl, rfl⟩

/-- A container goes on as what its successor goes on as. -/
theorem Container.ContinuesAs.trans {first second third : Container}
    (h : first.ContinuesAs second) (h' : second.ContinuesAs third) : first.ContinuesAs third :=
  ⟨h'.sameKey.trans h.sameKey, h'.sameId.trans h.sameId, h'.sameDocument.trans h.sameDocument⟩

/-- The first sample of a history has room, and nothing before it. -/
theorem Retention.push_nil (policy : Retention) (sample : Sample) :
    policy.push [] sample = [sample] := by
  have hroom : policy.makeRoom [] = [] := by simp [makeRoom]
  have hdrop (horizon : Option Timestamp) : dropBefore horizon [] = [] := by
    cases horizon <;> rfl
  rw [push, hroom, hdrop, List.nil_append]

/-- A batch that arrives, with the template and the settings it meets. -/
structure Delivery where
  template : Template
  settings : Settings
  batch : List Measurement

namespace Delivery

/-- The measurements of the batch that are kept for a container. -/
def kept (delivery : Delivery) (key : String) : List Measurement :=
  delivery.settings.kept key delivery.batch

/-- What the delivery does to the store. -/
def change (delivery : Delivery) : Store.Change IngestReport :=
  Store.ingestInPlace delivery.template delivery.settings delivery.batch

/-- A sample for a container: its time is that of the first measurement kept. -/
def IsSampleFor (delivery : Delivery) (key : String) (sample : Sample) : Prop :=
  (delivery.kept key).head?.bind (fun m =>
    m.timestamp.sampleTime? delivery.settings.timestampDelta) = some sample.timestamp

/-- A container that was tracked before a delivery goes on after it, and its history takes in one
sample if measurements are kept for it. -/
structure Continued (delivery : Delivery) (key : String) (old new : Container) : Prop
    extends old.ContinuesAs new where
  unchanged : delivery.kept key = [] → new.history = old.history
  admitted : delivery.kept key ≠ [] → ∃ sample, delivery.IsSampleFor key sample ∧
    new.history = delivery.settings.retention.push old.history sample

/-- A container that a delivery has discovered. Its document is the skeleton with identifier and
name, and with the values of the measurements kept that only the container has specs for. -/
structure Discovered (delivery : Delivery) (key : String) (new : Container) : Prop where
  keyed : new.key = key
  named : ∀ m ∈ delivery.kept key, delivery.settings.destination? m = some ⟨new.id, new.key⟩
  history : ∃ sample, delivery.IsSampleFor key sample ∧ new.history = [sample]
  document : ∃ identified fresh,
    delivery.template.container.skeleton.set Container.idPath (.text new.id) = .ok identified ∧
    identified.set Container.namePath (.text new.key) = .ok fresh ∧
    (delivery.kept key).foldlM delivery.template.fillContainer fresh = .ok new.document

end Delivery

namespace Store

variable {store before after : Store} {delivery : Delivery} {report : IngestReport} {key : String}

/-- A delivery either is taken in or leaves the store alone. -/
theorem on_change_eq_ok_iff :
    delivery.change.on store = (.ok report, after) ↔
      store.ingest delivery.template delivery.settings delivery.batch = .ok (report, after) :=
  on_ingestInPlace_eq_ok_iff

/-- What a delivery leaves under a key. -/
theorem get?_of_change (h : delivery.change.on before = (.ok report, after)) (key : String) :
    (delivery.kept key = [] ∧ after.get? key = before.get? key) ∨
      ∃ first rest started last new, delivery.kept key = first :: rest ∧
        before.Starts delivery.template delivery.settings first started ∧
        (first :: rest).foldlM (fun round m => round.write delivery.template m) started =
          .ok last ∧
        last.finish delivery.settings.retention = .ok new ∧ after.get? key = some new := by
  obtain ⟨round, hround, hget⟩ := get?_of_ingest (on_change_eq_ok_iff.mp h) key
  rcases starts_of_roundOf_eq_ok hround with
    ⟨hnone, rfl⟩ | ⟨first, rest, started, last, hkept, hstarts, rfl, hwrites⟩
  · exact .inl ⟨hnone, hget⟩
  · obtain ⟨new, hfinish, hget⟩ := hget
    exact .inr ⟨first, rest, started, last, new, hkept, hstarts, hwrites, hfinish, hget⟩

/-- The first measurement kept for a container starts a round of that container. -/
theorem startAt_of_starts {template : Template} {settings : Settings} {first : Measurement}
    {started : Round} (h : store.Starts template settings first started)
    (hsends : settings.sends key first = true) :
    ∃ ref timestamp stamp, settings.destination? first = some ref ∧ ref.key = key ∧
      first.timestamp.sampleTime? settings.timestampDelta = some timestamp ∧
      timestamp.stamp? = some stamp ∧
      Round.startAt template ref (store.get? key) timestamp stamp = .ok started := by
  obtain ⟨ref, timestamp, stamp, hdest, htime, hstamp, hstart⟩ := h
  obtain ⟨ref', hdest', rfl⟩ := Settings.sends_iff.mp hsends
  obtain rfl : ref = ref' := Option.some.inj (hdest.symm.trans hdest')
  exact ⟨ref, timestamp, stamp, hdest, rfl, htime, hstamp, hstart⟩

/-- What a round leaves of its container, told from how it was started. -/
theorem finished_of_change (h : delivery.change.on before = (.ok report, after))
    (hkept : delivery.kept key ≠ []) :
    ∃ ref container sample new,
      (∀ m ∈ delivery.kept key, delivery.settings.destination? m = some ref) ∧ ref.key = key ∧
      Round.containerFor delivery.template ref (before.get? key) = .ok container ∧
      delivery.IsSampleFor key sample ∧ after.get? key = some new ∧
      new = { container with
        document := new.document
        history := delivery.settings.retention.push container.history sample } ∧
      if (before.get? key).isNone then
        (delivery.kept key).foldlM delivery.template.fillContainer container.document =
          .ok new.document
      else new.document = container.document := by
  rcases get?_of_change h key with
    ⟨hnone, _⟩ | ⟨first, rest, started, last, new, hfirst, hstarts, hwrites, hfinish, hget⟩
  · exact absurd hnone hkept
  have hsends (m : Measurement) (hm : m ∈ delivery.kept key) :
      delivery.settings.sends key m = true := Settings.sends_of_mem_kept hm
  obtain ⟨ref, timestamp, stamp, hdest, hkey, htime, _, hstart⟩ :=
    startAt_of_starts hstarts (hsends first (by simp [hfirst]))
  obtain ⟨document, container, _, hcontainer, rfl⟩ := Round.startAt_eq_ok_iff.mp hstart
  obtain ⟨hframe, hlast, hdocument⟩ := Round.container_of_writes hwrites
  obtain ⟨finished, _, rfl⟩ := Round.finish_eq_ok_iff.mp hfinish
  refine ⟨ref, container, ⟨last.timestamp, finished⟩, _, fun m hm => ?_, hkey, hcontainer, ?_,
    hget, ?_, ?_⟩
  · obtain ⟨ref', hdest', hkey'⟩ := Settings.sends_iff.mp (hsends m hm)
    rw [hdest', Settings.destination?_eq_of_key_eq hdest' hdest (hkey'.trans hkey.symm)]
  · rw [Delivery.IsSampleFor, hfirst, hlast]
    exact htime
  · rw [Container.push, hframe]
  · rw [hfirst]
    exact hdocument

/-- A container that no measurement is kept for stays as it is. -/
theorem get?_of_change_of_kept_eq_nil (h : delivery.change.on before = (.ok report, after))
    (hkept : delivery.kept key = []) : after.get? key = before.get? key := by
  rcases get?_of_change h key with ⟨_, hget⟩ | ⟨first, rest, _, _, _, hfirst, _⟩
  · exact hget
  · simp [hkept] at hfirst

/-- A tracked container goes on, and takes in at most one sample. -/
theorem continued_of_change (h : delivery.change.on before = (.ok report, after))
    {old : Container} (hold : before.get? key = some old) :
    ∃ new, after.get? key = some new ∧ delivery.Continued key old new := by
  by_cases hkept : delivery.kept key = []
  · exact ⟨old, (get?_of_change_of_kept_eq_nil h hkept).trans hold, .refl old, fun _ => rfl,
      fun hne => absurd hkept hne⟩
  · obtain ⟨ref, container, sample, new, _, _, hcontainer, hsample, hget, hnew, hdocument⟩ :=
      finished_of_change h hkept
    rw [hold] at hcontainer hdocument
    obtain rfl : old = container := Except.ok.inj hcontainer
    rw [if_neg (by simp)] at hdocument
    rw [hdocument] at hnew
    subst hnew
    exact ⟨_, hget, ⟨rfl, rfl, rfl⟩, fun hnone => absurd hnone hkept,
      fun _ => ⟨sample, hsample, rfl⟩⟩

/-- A container is discovered when a measurement is kept for it, and then has one sample. -/
theorem discovered_of_change (h : delivery.change.on before = (.ok report, after))
    (hnone : before.get? key = none) :
    ((after.get? key).isSome ↔ delivery.kept key ≠ []) ∧
      ∀ new, after.get? key = some new → delivery.Discovered key new := by
  by_cases hkept : delivery.kept key = []
  · have hget := (get?_of_change_of_kept_eq_nil h hkept).trans hnone
    simp [hget, hkept]
  · obtain ⟨ref, container, sample, new, hnamed, hkey, hcontainer, hsample, hget, hnew,
      hdocument⟩ := finished_of_change h hkept
    refine ⟨by simp [hget, hkept], fun found hfound => ?_⟩
    obtain rfl : new = found := Option.some.inj (hget.symm.trans hfound)
    rw [hnone] at hcontainer hdocument
    obtain ⟨identified, fresh, hid, hname, rfl⟩ := Round.discover_eq_ok_iff.mp hcontainer
    rw [hnew]
    exact {
      keyed := hkey
      named := hnamed
      history := ⟨sample, hsample, delivery.settings.retention.push_nil sample⟩
      document := ⟨identified, fresh, hid, hname, hdocument⟩ }

/-! ## Runs of deliveries -/

/-- The store after a delivery, whether it is taken in or not. -/
def receive (store : Store) (delivery : Delivery) : Store :=
  (delivery.change.on store).2

/-- The store after some deliveries. -/
def receiveAll (store : Store) (deliveries : List Delivery) : Store :=
  deliveries.foldl receive store

/-- A delivery that is not taken in leaves the store alone. -/
theorem receive_cases (store : Store) (delivery : Delivery) :
    (∃ report, delivery.change.on store = (.ok report, store.receive delivery)) ∨
      store.receive delivery = store := by
  unfold receive
  simp only [Delivery.change, on_ingestInPlace]
  cases store.ingest delivery.template delivery.settings delivery.batch with
  | error failure => exact .inr rfl
  | ok outcome => exact .inl ⟨outcome.1, rfl⟩

/-- A delivery leaves no container behind. -/
theorem continuesAs_receive {old : Container} (hold : store.get? key = some old)
    (delivery : Delivery) :
    ∃ new, (store.receive delivery).get? key = some new ∧ old.ContinuesAs new := by
  rcases store.receive_cases delivery with ⟨report, hreport⟩ | hsame
  · obtain ⟨new, hget, hcontinued⟩ := continued_of_change hreport hold
    exact ⟨new, hget, hcontinued.toContinuesAs⟩
  · rw [hsame]
    exact ⟨old, hold, .refl old⟩

/-- A container that is tracked goes on through any run. -/
theorem continuesAs_receiveAll {old : Container} (hold : store.get? key = some old)
    (deliveries : List Delivery) :
    ∃ new, (store.receiveAll deliveries).get? key = some new ∧ old.ContinuesAs new := by
  induction deliveries generalizing store old with
  | nil => exact ⟨old, hold, .refl old⟩
  | cons delivery rest ih =>
    obtain ⟨next, hnext, hfirst⟩ := continuesAs_receive hold delivery
    obtain ⟨new, hnew, hrest⟩ := ih hnext
    exact ⟨new, hnew, hfirst.trans hrest⟩

/-- What holds of every container that is discovered, and goes on with a container, holds of all
containers after a delivery when it did before. -/
theorem containers_receive {P : String → Container → Prop}
    (hdiscovered : ∀ (delivery : Delivery) key new, delivery.Discovered key new → P key new)
    (hcontinued : ∀ key old new, Container.ContinuesAs old new → P key old → P key new)
    (h : ∀ key tracked, store.get? key = some tracked → P key tracked) (delivery : Delivery) :
    ∀ key tracked, (store.receive delivery).get? key = some tracked → P key tracked := by
  rcases store.receive_cases delivery with ⟨report, hreport⟩ | hsame
  · intro key new hnew
    cases hold : store.get? key with
    | none => exact hdiscovered _ key new ((discovered_of_change hreport hold).2 new hnew)
    | some old =>
      obtain ⟨found, hfound, hgoes⟩ := continued_of_change hreport hold
      obtain rfl : found = new := Option.some.inj (hfound.symm.trans hnew)
      exact hcontinued key old found hgoes.toContinuesAs (h key old hold)
  · rwa [hsame]

/-- What holds of containers as they are discovered, and while they go on, holds of all containers
after a run. -/
theorem containers_receiveAll {P : String → Container → Prop}
    (hdiscovered : ∀ (delivery : Delivery) key new, delivery.Discovered key new → P key new)
    (hcontinued : ∀ key old new, Container.ContinuesAs old new → P key old → P key new)
    (h : ∀ key tracked, store.get? key = some tracked → P key tracked)
    (deliveries : List Delivery) :
    ∀ key tracked, (store.receiveAll deliveries).get? key = some tracked → P key tracked := by
  induction deliveries generalizing store with
  | nil => exact h
  | cons delivery rest ih => exact ih (containers_receive hdiscovered hcontinued h delivery)

/-- An empty store has no containers. -/
@[simp]
theorem get?_empty (key : String) : empty.get? key = none := rfl

/-- Every container stands under its own key. -/
def Filed (store : Store) : Prop :=
  ∀ key container, store.get? key = some container → container.key = key

/-- A run of deliveries keeps every container under its own key. -/
theorem filed_receiveAll (h : store.Filed) (deliveries : List Delivery) :
    (store.receiveAll deliveries).Filed :=
  containers_receiveAll (P := fun key container => container.key = key)
    (fun _ _ _ hnew => hnew.keyed) (fun _ _ _ hgoes hold => hgoes.sameKey.trans hold) h deliveries

/-- An empty store has no container under a key that is not its own. -/
theorem filed_empty : empty.Filed := by
  intro key container hfound
  rw [get?_empty] at hfound
  cases hfound

/-- In any run of deliveries each one that is taken in keeps all tracked containers as they are, up
to one sample for those that measurements are kept for, and adds exactly the other ones that
measurements are kept for. What it leaves, no later delivery takes away or writes again. -/
theorem containers_written_once (earlier : List Delivery)
    (h : delivery.change.on (empty.receiveAll earlier) = (.ok report, after)) (key : String) :
    (∀ old, (empty.receiveAll earlier).get? key = some old → old.key = key ∧
      ∃ new, after.get? key = some new ∧ delivery.Continued key old new) ∧
    ((empty.receiveAll earlier).get? key = none →
      ((after.get? key).isSome ↔ delivery.kept key ≠ []) ∧
      ∀ new, after.get? key = some new → delivery.Discovered key new) ∧
    ∀ found, after.get? key = some found → ∀ later,
      ∃ new, (after.receiveAll later).get? key = some new ∧ found.ContinuesAs new := by
  have hfiled := filed_receiveAll filed_empty earlier
  refine ⟨fun old hold => ⟨hfiled key old hold, continued_of_change h hold⟩,
    discovered_of_change h, fun found hfound later => continuesAs_receiveAll hfound later⟩

/-- A template whose containers have a field for the name of their image. -/
def imageTemplate (field : String) : Template where
  container := ⟨.emptyMap, .ofSpecs [⟨"/image", "/" ++ field, none, []⟩]⟩
  sample := ⟨.map [("network", .emptyMap)], .empty⟩
  interface := ⟨.emptyMap, .empty⟩

/-- The images of some containers, with that template. -/
def imagesIn (field : String) (images : List (String × String)) : Delivery where
  template := imageTemplate field
  settings := .resolve []
  batch := images.map fun (container, image) =>
    ⟨Testkit.containerNamespace container "image", .text image, .newYear2020⟩

/-- After the template has been exchanged, a second image of a container is not written any more,
neither to the old field nor to the new one, and another container is discovered beside it. -/
theorem containers_written_once_images :
    let before := empty.receiveAll [imagesIn "image" [("web", "first")]]
    let delivery := imagesIn "tag" [("web", "second"), ("db", "first")]
    ∃ report after old new found,
      delivery.change.on before = (.ok report, after) ∧
      before.get? "/web" = some old ∧ after.get? "/web" = some new ∧
      delivery.Continued "/web" old new ∧
      ["image", "tag"].map (fun field => (new.document.get? field).bind Node.text?) =
        [some "first", none] ∧
      before.get? "/db" = none ∧ after.get? "/db" = some found ∧
      delivery.Discovered "/db" found := by
  intro before delivery
  obtain ⟨hok, hweb, hdb⟩ : (delivery.change.on before).1.toOption.isSome ∧
      (before.get? "/web").any (fun old => ["image", "tag"].map (fun field =>
        (old.document.get? field).bind Node.text?) = [some "first", none]) ∧
      (before.get? "/db").isNone := by decide +kernel
  cases hchange : delivery.change.on before with
  | mk outcome after =>
    cases outcome with
    | error failure => simp [hchange, Except.toOption] at hok
    | ok report =>
      have hrun := containers_written_once [imagesIn "image" [("web", "first")]] hchange
      obtain ⟨old, hold, hfields⟩ := (Option.any_eq_true _ _).mp hweb
      obtain ⟨_, new, hnew, hcontinued⟩ := (hrun "/web").1 old hold
      obtain ⟨hpresent, hdiscovered⟩ := (hrun "/db").2.1 (Option.isNone_iff_eq_none.mp hdb)
      have hkept : delivery.kept "/db" ≠ [] := by decide +kernel
      obtain ⟨found, hfound⟩ := Option.isSome_iff_exists.mp (hpresent.mpr hkept)
      refine ⟨report, after, old, new, found, rfl, hold, hnew, hcontinued, ?_,
        Option.isNone_iff_eq_none.mp hdb, hfound, hdiscovered found hfound⟩
      rw [hcontinued.sameDocument]
      exact of_decide_eq_true hfields

end Store

end ContainerFeed
