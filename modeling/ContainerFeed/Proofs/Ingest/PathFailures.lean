import ContainerFeed.Json.Writer
import ContainerFeed.Proofs.Ingest.InPlace
import ContainerFeed.Proofs.Ingest.Isolation
import ContainerFeed.Proofs.Ingest.Routing
import ContainerFeed.Proofs.Time.Calendar

/-!
# When a batch can miss a place

With a routable template a batch fails only where the date of a measurement cannot be
represented. With any other template some batch misses a place, so being routable is exactly what
it takes for routing never to fail.
-/

namespace ContainerFeed

-- The steps of a path are only ever compared, never computed, in this file.
attribute [local irreducible] Path.segments

/-- A round starts soundly, unless the date of its first measurement cannot be represented. -/
theorem Round.start?_sound {template : Template} (h : template.Routable) (settings : Settings)
    (ref : ContainerRef) (tracked : Option Container) (measured : Timestamp) :
    (∃ opened, Round.start? template settings ref tracked measured = .ok opened ∧
      ∀ r ∈ opened, ∀ key, r.Sound template settings key) ∨
    Round.start? template settings ref tracked measured = .error .dateOverflow := by
  unfold Round.start?
  cases measured.sampleTime? settings.timestampDelta with
  | none => exact .inr rfl
  | some timestamp =>
    cases hstamp : timestamp.stamp? with
    | none => exact .inl ⟨none, by simp only [hstamp], by simp⟩
    | some stamp =>
      obtain ⟨round, hround, hsound⟩ := Round.exists_startAt h ref tracked timestamp stamp
      refine .inl ⟨some round, ?_, ?_⟩
      · simp only [hstamp, hround]
        rfl
      · simpa using hsound settings

namespace Store

variable {template : Template} {settings : Settings} {key : String}

/-- One measurement more keeps a round sound, unless its date cannot be represented. -/
theorem roundStep_sound (h : template.Routable) (store : Store) {m : Measurement}
    (hm : settings.sends key m) {round : Option Round}
    (hround : ∀ r ∈ round, r.Sound template settings key) :
    (∃ next, store.roundStep template settings round m = .ok next ∧
      ∀ r ∈ next, r.Sound template settings key) ∨
    store.roundStep template settings round m = .error .dateOverflow := by
  obtain ⟨ref, hdest, _⟩ := Settings.sends_iff.mp hm
  have hwrite (started : Round) (hstarted : started.Sound template settings key) :
      ∃ next, advance template settings (store.get? ref.key) ref (some started) m = .ok next ∧
        ∀ r ∈ next, r.Sound template settings key := by
    obtain ⟨written, hwritten, hsound⟩ := hstarted.exists_write h hm
    refine ⟨some written, by rw [advance_some, hwritten]; rfl, ?_⟩
    simpa using hsound
  simp only [roundStep, hdest]
  cases round with
  | some started => exact .inl (hwrite started (hround started (by simp)))
  | none =>
    rw [advance_none]
    rcases Round.start?_sound h settings ref (store.get? ref.key) m.timestamp with
      ⟨opened, hopened, hsound⟩ | hoverflow
    · rw [hopened]
      cases opened with
      | none => exact .inl ⟨none, rfl, by simp⟩
      | some started => exact .inl (hwrite started (hsound started (by simp) key))
    · exact .inr (by rw [hoverflow])

/-- What the measurements of one container make up is a sound round. -/
theorem sound_of_roundOf_eq_ok (h : template.Routable) {store : Store} {batch : List Measurement}
    {round : Option Round} (hround : store.roundOf template settings key batch = .ok round) :
    ∀ r ∈ round, r.Sound template settings key := by
  refine Outcome.foldlM_preserves (P := fun round => ∀ r ∈ round, r.Sound template settings key)
    (fun before after m hm hbefore hafter => ?_) (by simp) hround
  rcases roundStep_sound h store (List.mem_filter.mp hm).2 hbefore with
    ⟨next, hnext, hsound⟩ | hoverflow
  · obtain rfl : next = after := Except.ok.inj (hnext.symm.trans hafter)
    exact hsound
  · simp [hoverflow] at hafter

/-- With a routable template a batch is taken in, unless a date cannot be represented. -/
theorem ingest_of_routable (h : template.Routable) (store : Store) (settings : Settings)
    (batch : List Measurement) :
    (∃ report after, store.ingest template settings batch = .ok (report, after)) ∨
    store.ingest template settings batch = .error .dateOverflow := by
  cases hrounds : store.roundsOf template settings batch with
  | ok rounds =>
    refine .inl (exists_ingest fun key => ?_)
    have hround := roundOf_of_roundsOf hrounds key
    refine ⟨_, hround, fun started hstarted => ?_⟩
    exact (sound_of_roundOf_eq_ok h hround started hstarted).exists_finish h _
  | error failure =>
    obtain ⟨before, m, after, key, round, rfl, hm, hround, hstep⟩ :=
      exists_of_roundsOf_eq_error hrounds
    have hfail : store.ingest template settings (before ++ m :: after) = .error failure :=
      ingest_eq_error_iff.mpr (.inl hrounds)
    rcases roundStep_sound h store hm (sound_of_roundOf_eq_ok h hround) with
      ⟨next, hnext, _⟩ | hoverflow
    · simp [hnext] at hstep
    · obtain rfl := Except.error.inj (hoverflow.symm.trans hstep)
      exact .inr hfail

/-! ## Dates that cannot be represented -/

/-- A round reports that the date overflows only where its sample has no time. -/
theorem start?_eq_dateOverflow {ref : ContainerRef} {tracked : Option Container}
    {measured : Timestamp}
    (h : Round.start? template settings ref tracked measured = .error .dateOverflow) :
    measured.sampleTime? settings.timestampDelta = none := by
  unfold Round.start? at h
  cases htime : measured.sampleTime? settings.timestampDelta with
  | none => rfl
  | some timestamp =>
    simp only [htime] at h
    cases hstamp : timestamp.stamp? with
    | none => simp [hstamp] at h
    | some stamp => simp [hstamp, Outcome.map_eq_error_iff, Outcome.mapError_eq_error_iff] at h

/-- A measurement is reported to overflow the date only where its sample would have no time. -/
theorem advance_eq_dateOverflow {tracked : Option Container} {ref : ContainerRef}
    {round : Option Round} {m : Measurement}
    (h : advance template settings tracked ref round m = .error .dateOverflow) :
    m.timestamp.sampleTime? settings.timestampDelta = none := by
  have hpath (started : Round) :
      advance template settings tracked ref (some started) m ≠ .error .dateOverflow := by
    simp [advance_some, Outcome.map_eq_error_iff, Outcome.mapError_eq_error_iff]
  cases round with
  | some started => exact absurd h (hpath started)
  | none =>
    rw [advance_none] at h
    cases hstart : Round.start? template settings ref tracked m.timestamp with
    | ok opened =>
      cases opened with
      | none => simp [hstart] at h
      | some started => exact absurd (by simpa [hstart] using h) (hpath started)
    | error failure =>
      obtain rfl : failure = .dateOverflow := by simpa [hstart] using h
      exact start?_eq_dateOverflow hstart

/-- Only a measurement whose date cannot be represented makes a batch fail with its date. -/
theorem exists_of_ingest_eq_dateOverflow {store : Store} {batch : List Measurement}
    (h : store.ingest template settings batch = .error .dateOverflow) :
    ∃ m ∈ batch, m.timestamp.sampleTime? settings.timestampDelta = none := by
  rcases ingest_eq_error_iff.mp h with hrounds | ⟨_, _, _, _, hpath⟩
  · obtain ⟨before, m, after, key, round, rfl, hm, _, hstep⟩ :=
      exists_of_roundsOf_eq_error hrounds
    obtain ⟨ref, hdest, _⟩ := Settings.sends_iff.mp hm
    simp only [roundStep, hdest] at hstep
    exact ⟨m, by simp, advance_eq_dateOverflow hstep⟩
  · simp at hpath

/-! ## A batch that shows what is missing -/

/-- A time that can be written as a stamp. -/
def someTime : Timestamp :=
  .newYear2020

/-- The same measurement at that time. -/
def atSomeTime (m : Measurement) : Measurement :=
  { m with timestamp := someTime }

/-- The same settings, but they leave times as they are. -/
def unmoved (settings : Settings) : Settings :=
  { settings with timestampDelta := .zero }

/-- A sample at that time has a time and a stamp. -/
theorem sampleTime_someTime : ∃ timestamp stamp,
    someTime.sampleTime? .zero = some timestamp ∧ timestamp.stamp? = some stamp := by
  have hstamp : ((someTime.sampleTime? .zero).bind Timestamp.stamp?).isSome := by decide +kernel
  obtain ⟨stamp, hstamp⟩ := Option.isSome_iff_exists.mp hstamp
  obtain ⟨timestamp, htime, hstamp⟩ := Option.bind_eq_some_iff.mp hstamp
  exact ⟨timestamp, stamp, htime, hstamp⟩

/-- A first measurement at that time starts a round and is written. -/
theorem roundStep_atSomeTime {m : Measurement} {ref : ContainerRef}
    (hdest : settings.destination? m = some ref) {next : Option Round}
    (h : Store.empty.roundStep template (unmoved settings) none (atSomeTime m) = .ok next) :
    ∃ timestamp stamp start one, Round.startAt template ref none timestamp stamp = .ok start ∧
      start.write template m = .ok one ∧ next = some one := by
  have hdest' : (unmoved settings).destination? (atSomeTime m) = some ref := hdest
  obtain ⟨timestamp, stamp, htime, hstamp⟩ := sampleTime_someTime
  simp only [roundStep, hdest', advance_none] at h
  cases hstart : Round.start? template (unmoved settings) ref (Store.empty.get? ref.key)
      (atSomeTime m).timestamp with
  | error failure => simp [hstart] at h
  | ok opened =>
    cases opened with
    | none =>
      obtain ⟨other, hother, hnone⟩ := start?_eq_ok_none_iff.mp hstart
      obtain rfl : other = timestamp := Option.some.inj (hother.symm.trans htime)
      simp [hstamp] at hnone
    | some start =>
      obtain ⟨_, _, _, _, hstart'⟩ := start?_eq_ok_some_iff.mp hstart
      simp only [hstart, advance_some, Outcome.map_eq_ok_iff, Outcome.mapError_eq_ok_iff] at h
      obtain ⟨one, hone, rfl⟩ := h
      exact ⟨_, _, start, one, hstart', hone, rfl⟩

variable (hnever : ∀ settings batch e, Store.empty.ingest template settings batch ≠
  .error (.path e))

include hnever

/-- If no batch ever misses a place, every batch at that time is taken in. -/
private theorem exists_ingest_of_never (settings : Settings) (batch : List Measurement) :
    ∃ report after, Store.empty.ingest template (unmoved settings) (batch.map atSomeTime) =
      .ok (report, after) := by
  rcases Outcome.ok_or_error
      (Store.empty.ingest template (unmoved settings) (batch.map atSomeTime)) with
    ⟨⟨report, after⟩, hok⟩ | ⟨failure, herror⟩
  · exact ⟨report, after, hok⟩
  · cases failure with
    | path e => exact absurd herror (hnever _ _ e)
    | dateOverflow =>
      obtain ⟨m, hm, htime⟩ := exists_of_ingest_eq_dateOverflow herror
      obtain ⟨original, _, rfl⟩ := List.mem_map.mp hm
      obtain ⟨timestamp, _, hsome, _⟩ := sampleTime_someTime
      have hnone : someTime.sampleTime? .zero = none := htime
      simp [hsome] at hnone

/-- If no batch ever misses a place, any two measurements of one container make up a round. -/
private theorem exists_round_of_two {first second : Measurement} (hfirst : settings.sends key first)
    (hsecond : settings.sends key second) :
    ∃ ref timestamp stamp start one two container,
      Round.startAt template ref none timestamp stamp = .ok start ∧
      start.write template first = .ok one ∧ one.write template second = .ok two ∧
      two.finish settings.retention = .ok container := by
  obtain ⟨report, after, hok⟩ := exists_ingest_of_never hnever settings [first, second]
  obtain ⟨round, hround, hfinish⟩ := roundOf_of_ingest hok key
  have hsent : ([first, second].map atSomeTime).filter ((unmoved settings).sends key) =
      [atSomeTime first, atSomeTime second] :=
    List.filter_eq_self.mpr (by simpa using ⟨hfirst, hsecond⟩)
  obtain ⟨ref, hdest, _⟩ := Settings.sends_iff.mp hfirst
  obtain ⟨other, hother, _⟩ := Settings.sends_iff.mp hsecond
  rw [roundOf, hsent, Outcome.foldlM_cons_eq_ok_iff] at hround
  obtain ⟨next, hnext, hround⟩ := hround
  obtain ⟨timestamp, stamp, start, one, hstart, hone, rfl⟩ := roundStep_atSomeTime hdest hnext
  rw [Outcome.foldlM_cons_eq_ok_iff] at hround
  obtain ⟨last, hlast, hround⟩ := hround
  obtain rfl := Outcome.foldlM_nil_eq_ok_iff.mp hround
  have hother' : (unmoved settings).destination? (atSomeTime second) = some other := hother
  simp only [roundStep, hother', advance_some, Outcome.map_eq_ok_iff,
    Outcome.mapError_eq_ok_iff] at hlast
  obtain ⟨two, htwo, rfl⟩ := hlast
  obtain ⟨container, hcontainer⟩ := hfinish two rfl
  exact ⟨ref, timestamp, stamp, start, one, two, container, hstart, hone, htwo, hcontainer⟩

/-- If no batch ever misses a place, a part keeps what is written last, and the places of one
measurement, under the writes of any other. -/
private theorem accepts_of_never {first second : Measurement} (hfirst : settings.sends key first)
    (hsecond : settings.sends key second) {part : Round.Part} {p : List String}
    (hp : p ∈ part.reserved ∪ Round.placesOf template part second) :
    (part.skeleton template).Accepts p ∧
      ∀ q ∈ part.filledIn ∪ Round.placesOf template part first,
        ¬ (part.skeleton template).Above q p := by
  obtain ⟨ref, timestamp, stamp, start, one, two, container, hstart, hone, htwo, hfinish⟩ :=
    exists_round_of_two hnever hfirst hsecond
  obtain ⟨hopen, hnew⟩ := Round.narrows_startAt hstart part
  obtain ⟨hopenone, hwrite, _⟩ := Round.narrows_write hone hopen
  obtain ⟨_, hlater, hplaces⟩ := Round.narrows_write htwo hopenone
  have hmiddle : (one.part template part).Accepts p := by
    rcases hp with hreserved | hp
    · cases part with
      | interface name => exact hreserved.elim
      | container => exact hreserved.elim
      | sample =>
        obtain ⟨sample, hsample, _⟩ := Outcome.bind_eq_ok_iff.mp hfinish
        obtain ⟨document, hdocument, _⟩ := Outcome.bind_eq_ok_iff.mp hsample
        have haccepts : (two.part template .sample).Accepts
            (Path.segments Template.interfacesPath) :=
          Node.exists_set_iff.mp ⟨document, hdocument⟩
        rw [Set.mem_singleton_iff.mp hreserved]
        exact (hlater _ haccepts).1
    · exact hplaces p hp
  obtain ⟨haccepts, _, hnot⟩ := (hnew.trans hwrite) p hmiddle
  exact ⟨haccepts, hnot⟩

/-- A template with which no batch ever misses a place is routable. -/
private theorem routable_of_never : template.Routable := by
  have hsome : (Settings.resolve []).sends "/web"
      ⟨⟨["intel", "docker", "web"]⟩, .bool true, someTime⟩ = true := by decide +kernel
  obtain ⟨ref, timestamp, stamp, start, one, two, container, hstart, _⟩ :=
    exists_round_of_two hnever hsome hsome
  obtain ⟨document, container, hdocument, hcontainer, rfl⟩ := Round.startAt_eq_ok_iff.mp hstart
  obtain ⟨first, second, hfirst, hsecond, rfl⟩ := Round.discover_eq_ok_iff.mp hcontainer
  refine ⟨Node.exists_set_iff.mp ⟨_, hdocument⟩, Node.exists_set_iff.mp ⟨_, hfirst⟩, ?_, ?_⟩
  · exact ((Node.narrows_set_leaf hfirst) _ (Node.exists_set_iff.mp ⟨_, hsecond⟩)).1
  · rintro part settings key p (hreserved | ⟨m, hm, hp⟩)
    · refine ⟨(accepts_of_never hnever hsome hsome (.inl hreserved)).1, ?_⟩
      rintro q (hq | ⟨m, hm, hq⟩)
      · exact (accepts_of_never hnever hsome hsome (.inl hreserved)).2 q (.inl hq)
      · exact (accepts_of_never hnever hm hm (.inl hreserved)).2 q (.inr hq)
    · refine ⟨(accepts_of_never hnever hm hm (.inr hp)).1, ?_⟩
      rintro q (hq | ⟨m', hm', hq⟩)
      · exact (accepts_of_never hnever hm hm (.inr hp)).2 q (.inl hq)
      · exact (accepts_of_never hnever hm' hm (.inr hp)).2 q (.inr hq)

omit hnever

/-! ## Runs -/

/-- The outcomes of batches that are taken in one after another, each in place. -/
def outcomes (store : Store) (template : Template) (settings : Settings) :
    List (List Measurement) → List (Except IngestFailure IngestReport)
  | [] => []
  | batch :: rest =>
    ((ingestInPlace template settings batch).on store).1 ::
      ((ingestInPlace template settings batch).on store).2.outcomes template settings rest

/-- With a routable template no batch of a run fails at a path. -/
theorem outcome_ne_path (h : template.Routable) (store : Store) (settings : Settings)
    (batches : List (List Measurement)) (e : PathError) :
    .error (.path e) ∉ store.outcomes template settings batches := by
  induction batches generalizing store with
  | nil => simp [outcomes]
  | cons batch rest ih =>
    rw [outcomes, List.mem_cons, not_or]
    refine ⟨?_, ih _⟩
    rw [on_ingestInPlace]
    rcases ingest_of_routable h store settings batch with ⟨report, after, hok⟩ | hoverflow
    · simp [hok]
    · simp [hoverflow]

/-- Being routable is exactly what a template needs so that no batch of any run from the empty
store misses a place. -/
theorem never_misses_iff_routable (template : Template) :
    (∀ settings batches e, .error (.path e) ∉ Store.empty.outcomes template settings batches) ↔
      template.Routable := by
  constructor
  · intro hnever
    refine routable_of_never fun settings batch e hfail => hnever settings [batch] e ?_
    rw [outcomes, on_ingestInPlace, hfail]
    simp
  · exact fun h settings batches e => outcome_ne_path h .empty settings batches e

/-- A template whose `network` object is itself a spec, without a default. Its skeleton has lost
the object, and with it the place of the interfaces. -/
def lostNetwork : Node :=
  .map [
    ("id", .text ""),
    ("name", .text ""),
    ("stats", .list [.map [
      ("network", .map [
        (Template.Spec.marker, .leaf (.bool true)),
        ("interfaces", .list [.map [("name", .text "")]]),
        ("src", .text "/rx_total")]),
      ("timestamp", .text "")]])]

/-- The outcome of the first batch with a template text, if the text is accepted and the batch
then fails. -/
def firstFailure? (source : String) (settings : Settings) (batch : List Measurement) :
    Option IngestFailure :=
  match Template.compile source with
  | .error _ => none
  | .ok template => match Store.empty.ingest template settings batch with
    | .error failure => some failure
    | .ok _ => none

/-- The text of that template is accepted, and the first batch with any container fails. -/
theorem lostNetwork_misses :
    ∃ template settings batches e, Template.compile lostNetwork.render = .ok template ∧
      .error (.path e) ∈ Store.empty.outcomes template settings batches ∧ ¬ template.Routable := by
  let settings : Settings := ⟨8777, 10, .zero, .builtin, .zero, "/docker"⟩
  let batch : List Measurement := [⟨⟨["docker", "web"]⟩, .uint 7, someTime⟩]
  have hfails : firstFailure? lostNetwork.render settings batch =
      some (.path (.notFound "/network")) := by decide +kernel
  unfold firstFailure? at hfails
  cases hcompile : Template.compile lostNetwork.render with
  | error fault => simp [hcompile] at hfails
  | ok template =>
    cases hingest : Store.empty.ingest template settings batch with
    | ok outcome => simp [hcompile, hingest] at hfails
    | error failure =>
      obtain rfl : failure = .path (.notFound "/network") := by
        simpa [hcompile, hingest] using hfails
      have hmem : .error (.path (.notFound "/network")) ∈
          Store.empty.outcomes template settings [batch] := by
        rw [outcomes, on_ingestInPlace, hingest]
        simp
      exact ⟨template, settings, [batch], _, rfl, hmem,
        fun h => outcome_ne_path h .empty settings [batch] _ hmem⟩

end Store

end ContainerFeed
