import ContainerFeed.Proofs.Ingest.Rounds

/-!
# Kept measurements

The sample of a container is opened by the first measurement whose time can be written as a stamp.
What comes before is skipped, and what comes after is kept, whatever its time. So a round is a new
sample with all kept measurements written to it.
-/

namespace ContainerFeed

/-- A measurement can open a sample: its time can be written as a stamp. -/
def Settings.opens (settings : Settings) (m : Measurement) : Bool :=
  ((m.timestamp.sampleTime? settings.timestampDelta).bind Timestamp.stamp?).isSome

/-- The measurements of a batch that are kept for a container: those that are sent to it, from the
first one on that can open a sample. -/
def Settings.kept (settings : Settings) (key : String) (batch : List Measurement) :
    List Measurement :=
  (batch.filter (settings.sends key)).dropWhile fun m => !settings.opens m

/-- A measurement can open a sample when the sample has a time and this a stamp. -/
theorem Settings.opens_iff {settings : Settings} {m : Measurement} :
    settings.opens m = true ↔ ∃ timestamp stamp,
      m.timestamp.sampleTime? settings.timestampDelta = some timestamp ∧
        timestamp.stamp? = some stamp := by
  simp only [opens, Option.isSome_iff_exists, Option.bind_eq_some_iff]
  exact ⟨fun ⟨stamp, timestamp, h⟩ => ⟨timestamp, stamp, h⟩,
    fun ⟨timestamp, stamp, h⟩ => ⟨stamp, timestamp, h⟩⟩

/-- What is kept for a container is part of the batch. -/
theorem Settings.mem_of_mem_kept {settings : Settings} {key : String} {batch : List Measurement}
    {m : Measurement} (h : m ∈ settings.kept key batch) : m ∈ batch :=
  (List.mem_filter.mp ((List.dropWhile_sublist _).subset h)).1

/-- What is kept for a container is sent to it. -/
theorem Settings.sends_of_mem_kept {settings : Settings} {key : String}
    {batch : List Measurement} {m : Measurement} (h : m ∈ settings.kept key batch) :
    settings.sends key m = true :=
  (List.mem_filter.mp ((List.dropWhile_sublist _).subset h)).2

namespace Store

/-- A measurement starts a round of the container it is sent to, at the time of its sample. -/
def Starts (store : Store) (template : Template) (settings : Settings) (m : Measurement)
    (round : Round) : Prop :=
  ∃ ref timestamp stamp, settings.destination? m = some ref ∧
    m.timestamp.sampleTime? settings.timestampDelta = some timestamp ∧
    timestamp.stamp? = some stamp ∧
    Round.startAt template ref (store.get? ref.key) timestamp stamp = .ok round

variable {store : Store} {template : Template} {settings : Settings} {key : String}

/-- In a round under way a measurement of the container is written. -/
theorem roundStep_some {m : Measurement} (hm : settings.sends key m) (round : Round) :
    store.roundStep template settings (some round) m =
      ((round.write template m).mapError IngestFailure.path).map some := by
  obtain ⟨ref, hdest, _⟩ := Settings.sends_iff.mp hm
  simp only [roundStep, hdest, advance_some]

/-- A measurement that cannot open a sample is skipped, and one that can is the first to be
written. -/
theorem roundStep_none_eq_ok {m : Measurement} {next : Option Round} (hm : settings.sends key m)
    (h : store.roundStep template settings none m = .ok next) :
    (settings.opens m = false ∧ next = none) ∨
      (settings.opens m = true ∧ ∃ started, store.Starts template settings m started ∧
        store.roundStep template settings (some started) m = .ok next) := by
  obtain ⟨ref, hdest, _⟩ := Settings.sends_iff.mp hm
  simp only [roundStep, hdest, advance_none] at h ⊢
  cases hstart : Round.start? template settings ref (store.get? ref.key) m.timestamp with
  | error failure => simp [hstart] at h
  | ok opened =>
    cases opened with
    | none =>
      obtain rfl : none = next := by simpa [hstart] using h
      obtain ⟨timestamp, htime, hstamp⟩ := start?_eq_ok_none_iff.mp hstart
      exact .inl ⟨by simp [Settings.opens, htime, hstamp], rfl⟩
    | some started =>
      obtain ⟨timestamp, stamp, htime, hstamp, hstarted⟩ := start?_eq_ok_some_iff.mp hstart
      exact .inr ⟨Settings.opens_iff.mpr ⟨timestamp, stamp, htime, hstamp⟩, started,
        ⟨ref, timestamp, stamp, hdest, htime, hstamp, hstarted⟩, by simpa only [hstart] using h⟩

/-- Once a round has started, all measurements are written. -/
private theorem foldlM_roundStep_some {ms : List Measurement}
    (hms : ∀ m ∈ ms, settings.sends key m) {round : Round} {final : Option Round}
    (h : ms.foldlM (store.roundStep template settings) (some round) = .ok final) :
    ∃ last, final = some last ∧
      ms.foldlM (fun round m => round.write template m) round = .ok last := by
  induction ms generalizing round with
  | nil => exact ⟨round, (Outcome.foldlM_nil_eq_ok_iff.mp h).symm, rfl⟩
  | cons m ms ih =>
    obtain ⟨hm, hms⟩ := List.forall_mem_cons.mp hms
    obtain ⟨next, hnext, hrest⟩ := Outcome.foldlM_cons_eq_ok_iff.mp h
    rw [roundStep_some hm] at hnext
    obtain ⟨written, hwritten, rfl⟩ := Outcome.map_eq_ok_iff.mp hnext
    obtain ⟨last, hfinal, hlast⟩ := ih hms hrest
    exact ⟨last, hfinal,
      Outcome.foldlM_cons_eq_ok_iff.mpr ⟨written, Outcome.mapError_eq_ok_iff.mp hwritten, hlast⟩⟩

private theorem foldlM_roundStep_none {ms : List Measurement}
    (hms : ∀ m ∈ ms, settings.sends key m) {final : Option Round}
    (h : ms.foldlM (store.roundStep template settings) none = .ok final) :
    ((ms.dropWhile fun m => !settings.opens m) = [] ∧ final = none) ∨
      ∃ first rest started last, (ms.dropWhile fun m => !settings.opens m) = first :: rest ∧
        store.Starts template settings first started ∧ final = some last ∧
        (first :: rest).foldlM (fun round m => round.write template m) started = .ok last := by
  induction ms with
  | nil => exact .inl ⟨rfl, (Outcome.foldlM_nil_eq_ok_iff.mp h).symm⟩
  | cons m ms ih =>
    obtain ⟨hm, hrest⟩ := List.forall_mem_cons.mp hms
    obtain ⟨next, hnext, hfinal⟩ := Outcome.foldlM_cons_eq_ok_iff.mp h
    rcases roundStep_none_eq_ok hm hnext with
      ⟨hopens, rfl⟩ | ⟨hopens, started, hstarted, hstep⟩
    · rw [List.dropWhile_cons_of_pos (by simp [hopens])]
      exact ih hrest hfinal
    · rw [List.dropWhile_cons_of_neg (by simp [hopens])]
      obtain ⟨last, hlast, hwrites⟩ := foldlM_roundStep_some hms
        (Outcome.foldlM_cons_eq_ok_iff.mpr ⟨next, hstep, hfinal⟩)
      exact .inr ⟨m, ms, started, last, rfl, hstarted, hlast, hwrites⟩

/-- A container has a round when measurements are kept for it. The first of them starts the round,
and all of them are written. -/
theorem starts_of_roundOf_eq_ok {batch : List Measurement} {final : Option Round}
    (h : store.roundOf template settings key batch = .ok final) :
    (settings.kept key batch = [] ∧ final = none) ∨
      ∃ first rest started last, settings.kept key batch = first :: rest ∧
        store.Starts template settings first started ∧ final = some last ∧
        (first :: rest).foldlM (fun round m => round.write template m) started = .ok last :=
  foldlM_roundStep_none (fun _ hm => (List.mem_filter.mp hm).2) h

/-- A container has a round when measurements are kept for it, and all of these are written. -/
theorem roundOf_eq_ok {batch : List Measurement} {final : Option Round}
    (h : store.roundOf template settings key batch = .ok final) :
    (settings.kept key batch = [] ∧ final = none) ∨
      (settings.kept key batch ≠ [] ∧ ∃ ref tracked timestamp stamp started last,
        Round.startAt template ref tracked timestamp stamp = .ok started ∧ final = some last ∧
        (settings.kept key batch).foldlM (fun round m => round.write template m) started =
          .ok last) := by
  rcases starts_of_roundOf_eq_ok h with
    hnone | ⟨first, rest, started, last, hkept, ⟨ref, timestamp, stamp, _, _, _, hstarted⟩,
      hlast, hwrites⟩
  · exact .inl hnone
  · rw [hkept]
    exact .inr ⟨by simp, ref, _, timestamp, stamp, started, last, hstarted, hlast, hwrites⟩

end Store

end ContainerFeed
