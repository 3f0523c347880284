import ContainerFeed.Ingest
import ContainerFeed.Proofs.KeyedLookup
import ContainerFeed.Proofs.Outcomes

/-!
# One round per container

A batch is taken in by one pass that works on the rounds of all containers. This file takes the
pass apart: what it leaves under the key of a container is what the measurements of that container
do to its round alone, and the pass succeeds exactly when each of these rounds does. The same is
said of the containers that a batch leaves in the store.
-/

namespace ContainerFeed

/-- The container that a measurement is sent to, if it is sent to one. -/
def Settings.destination? (settings : Settings) (m : Measurement) : Option ContainerRef :=
  ContainerRef.classify? m.ns.display settings.metricPrefix

/-- A measurement is sent to the container with this key. -/
def Settings.sends (settings : Settings) (key : String) (m : Measurement) : Bool :=
  (settings.destination? m).any fun ref => ref.key == key

/-- A measurement is sent to a container when its destination has the key. -/
theorem Settings.sends_iff {settings : Settings} {key : String} {m : Measurement} :
    settings.sends key m = true ↔
      ∃ ref, settings.destination? m = some ref ∧ ref.key = key := by
  simp [sends, Option.any_eq_true]

namespace Store

variable (store : Store) (template : Template) (settings : Settings)

/-- The round of a container after one more measurement. A measurement without a destination
leaves it alone. -/
def roundStep (round : Option Round) (m : Measurement) : Except IngestFailure (Option Round) :=
  match settings.destination? m with
  | none => .ok round
  | some ref => advance template settings (store.get? ref.key) ref round m

/-- What the measurements of a batch that are sent to one container do to its round. -/
def roundOf (key : String) (batch : List Measurement) : Except IngestFailure (Option Round) :=
  (batch.filter (settings.sends key)).foldlM (store.roundStep template settings) none

variable {store template settings}

/-- A measurement starts a round when its time can be written as a stamp and the round can be
started with it. -/
theorem start?_eq_ok_some_iff {ref : ContainerRef} {tracked : Option Container}
    {measured : Timestamp} {round : Round} :
    Round.start? template settings ref tracked measured = .ok (some round) ↔
      ∃ timestamp stamp, measured.sampleTime? settings.timestampDelta = some timestamp ∧
        timestamp.stamp? = some stamp ∧
        Round.startAt template ref tracked timestamp stamp = .ok round := by
  unfold Round.start?
  cases measured.sampleTime? settings.timestampDelta with
  | none => simp
  | some timestamp =>
    cases hstamp : timestamp.stamp? with
    | none => simp [hstamp]
    | some stamp => simp [hstamp, Outcome.map_eq_ok_iff, Outcome.mapError_eq_ok_iff]

/-- A round does not start when the time of its sample cannot be written as a stamp. -/
theorem start?_eq_ok_none_iff {ref : ContainerRef} {tracked : Option Container}
    {measured : Timestamp} :
    Round.start? template settings ref tracked measured = .ok none ↔
      ∃ timestamp, measured.sampleTime? settings.timestampDelta = some timestamp ∧
        timestamp.stamp? = none := by
  unfold Round.start?
  cases measured.sampleTime? settings.timestampDelta with
  | none => simp
  | some timestamp =>
    cases hstamp : timestamp.stamp? with
    | none => simp [hstamp]
    | some stamp => simp [hstamp, Outcome.map_eq_ok_iff]

/-- In a round under way a measurement is written. -/
theorem advance_some (tracked : Option Container) (ref : ContainerRef) (round : Round)
    (m : Measurement) :
    advance template settings tracked ref (some round) m =
      ((round.write template m).mapError IngestFailure.path).map some := by
  have hadvance : advance template settings tracked ref (some round) m =
      (do return some (← (round.write template m).mapError IngestFailure.path)) := rfl
  rw [hadvance]
  cases round.write template m <;> rfl

/-- A round that has not started is started, if it can be, and then advanced. -/
theorem advance_none (tracked : Option Container) (ref : ContainerRef) (m : Measurement) :
    advance template settings tracked ref none m =
      match Round.start? template settings ref tracked m.timestamp with
      | .error failure => .error failure
      | .ok none => .ok none
      | .ok (some round) => advance template settings tracked ref (some round) m := by
  unfold advance
  cases Round.start? template settings ref tracked m.timestamp with
  | error failure => rfl
  | ok opened => cases opened <;> rfl

/-- A round that has started does not vanish. -/
theorem advance_isSome {tracked : Option Container} {ref : ContainerRef} {round : Option Round}
    {m : Measurement} {next : Option Round}
    (h : advance template settings tracked ref round m = .ok next) (hround : round.isSome) :
    next.isSome := by
  obtain ⟨started, rfl⟩ := Option.isSome_iff_exists.mp hround
  rw [advance_some] at h
  obtain ⟨written, _, rfl⟩ := Outcome.map_eq_ok_iff.mp h
  rfl

/-- The rounds with the round of one container put back after it has been advanced. -/
def putRound (key : String) (rounds : List (String × Round)) :
    Option Round → List (String × Round)
  | some round => Keyed.insert key round rounds
  | none => rounds

/-- A measurement without a destination leaves the rounds alone. -/
theorem share_of_destination_none {rounds : List (String × Round)} {m : Measurement}
    (h : settings.destination? m = none) :
    store.share template settings rounds m = .ok rounds := by
  unfold Settings.destination? at h
  simp only [share, h]

/-- A measurement advances the round of its destination, and that only. -/
theorem share_of_destination_some {rounds next : List (String × Round)} {m : Measurement}
    {ref : ContainerRef} (h : settings.destination? m = some ref) :
    store.share template settings rounds m = .ok next ↔
      ∃ round, advance template settings (store.get? ref.key) ref
        (Keyed.get? ref.key rounds) m = .ok round ∧ putRound ref.key rounds round = next := by
  unfold Settings.destination? at h
  simp only [share, h, Outcome.bind_eq_ok_iff, Outcome.pure_eq_ok_iff]
  rfl

/-- Sharing out a measurement advances the round of its container and no other. -/
theorem share_eq_ok {rounds next : List (String × Round)} {m : Measurement}
    (h : store.share template settings rounds m = .ok next) (key : String) :
    if settings.sends key m then
      store.roundStep template settings (Keyed.get? key rounds) m = .ok (Keyed.get? key next)
    else Keyed.get? key next = Keyed.get? key rounds := by
  cases hdest : settings.destination? m with
  | none =>
    obtain rfl : rounds = next := by simpa [share_of_destination_none hdest] using h
    simp [Settings.sends, hdest]
  | some ref =>
    obtain ⟨round, hround, rfl⟩ := (share_of_destination_some hdest).mp h
    by_cases hkey : ref.key = key
    · subst hkey
      simp only [Settings.sends, hdest, Option.any_some, beq_self_eq_true, if_true, roundStep,
        hround]
      cases round with
      | some round => simp [putRound]
      | none =>
        cases hold : Keyed.get? ref.key rounds with
        | none => simp [putRound, hold]
        | some old => simpa using advance_isSome hround (by simp [hold])
    · have hne : key ≠ ref.key := fun heq => hkey heq.symm
      simp only [Settings.sends, hdest, Option.any_some, beq_iff_eq, hkey, if_false]
      cases round with
      | some round => simp [putRound, Keyed.get?_insert_of_ne round rounds hne]
      | none => rfl

/-- A measurement can be shared out when the round of its container can be advanced. -/
theorem exists_share {rounds : List (String × Round)} {m : Measurement}
    (h : ∀ key, settings.sends key m = true →
      ∃ round, store.roundStep template settings (Keyed.get? key rounds) m = .ok round) :
    ∃ next, store.share template settings rounds m = .ok next := by
  cases hdest : settings.destination? m with
  | none => exact ⟨rounds, share_of_destination_none hdest⟩
  | some ref =>
    obtain ⟨round, hround⟩ := h ref.key (Settings.sends_iff.mpr ⟨ref, hdest, rfl⟩)
    have hadvance : advance template settings (store.get? ref.key) ref
        (Keyed.get? ref.key rounds) m = .ok round := by
      simpa [roundStep, hdest] using hround
    exact ⟨_, (share_of_destination_some hdest).mpr ⟨round, hadvance, rfl⟩⟩

/-- A measurement cannot be shared out when the round of its container cannot be advanced. -/
theorem share_eq_error {rounds : List (String × Round)} {m : Measurement}
    {failure : IngestFailure} (h : store.share template settings rounds m = .error failure) :
    ∃ ref, settings.destination? m = some ref ∧
      store.roundStep template settings (Keyed.get? ref.key rounds) m = .error failure := by
  cases hdest : settings.destination? m with
  | none => simp [share_of_destination_none hdest] at h
  | some ref =>
    refine ⟨ref, rfl, ?_⟩
    unfold Settings.destination? at hdest
    simp only [share, hdest, Outcome.bind_eq_error_iff, Outcome.pure_ne_error, and_false,
      exists_false, or_false] at h
    simpa only [roundStep, Settings.destination?, hdest] using h

/-- A measurement keeps the keys of the rounds in order. -/
theorem ascending_share {rounds next : List (String × Round)} {m : Measurement}
    (h : store.share template settings rounds m = .ok next) (hrounds : Keyed.Ascending rounds) :
    Keyed.Ascending next := by
  cases hdest : settings.destination? m with
  | none =>
    obtain rfl : rounds = next := by simpa [share_of_destination_none hdest] using h
    exact hrounds
  | some ref =>
    obtain ⟨round, _, rfl⟩ := (share_of_destination_some hdest).mp h
    cases round with
    | some round => exact Keyed.ascending_insert ref.key round hrounds
    | none => exact hrounds

private theorem get?_foldlM_share {batch : List Measurement} {rounds final : List (String × Round)}
    (h : batch.foldlM (store.share template settings) rounds = .ok final) (key : String) :
    (batch.filter (settings.sends key)).foldlM (store.roundStep template settings)
      (Keyed.get? key rounds) = .ok (Keyed.get? key final) := by
  induction batch generalizing rounds with
  | nil =>
    obtain rfl := Outcome.foldlM_nil_eq_ok_iff.mp h
    rfl
  | cons m batch ih =>
    obtain ⟨next, hnext, hrest⟩ := Outcome.foldlM_cons_eq_ok_iff.mp h
    have hstep := share_eq_ok hnext key
    by_cases hsends : settings.sends key m = true
    · rw [if_pos hsends] at hstep
      rw [List.filter_cons_of_pos hsends, Outcome.foldlM_cons_eq_ok_iff]
      exact ⟨_, hstep, ih hrest⟩
    · rw [if_neg hsends] at hstep
      rw [List.filter_cons_of_neg hsends, ← hstep]
      exact ih hrest

private theorem exists_foldlM_share {batch : List Measurement} {rounds : List (String × Round)}
    (h : ∀ key, ∃ round, (batch.filter (settings.sends key)).foldlM
      (store.roundStep template settings) (Keyed.get? key rounds) = .ok round) :
    ∃ final, batch.foldlM (store.share template settings) rounds = .ok final := by
  induction batch generalizing rounds with
  | nil => exact ⟨rounds, rfl⟩
  | cons m batch ih =>
    obtain ⟨next, hnext⟩ : ∃ next, store.share template settings rounds m = .ok next := by
      refine exists_share fun key hsends => ?_
      obtain ⟨round, hround⟩ := h key
      rw [List.filter_cons_of_pos hsends, Outcome.foldlM_cons_eq_ok_iff] at hround
      obtain ⟨first, hfirst, _⟩ := hround
      exact ⟨first, hfirst⟩
    obtain ⟨final, hfinal⟩ : ∃ final,
        batch.foldlM (store.share template settings) next = .ok final := by
      refine ih fun key => ?_
      obtain ⟨round, hround⟩ := h key
      have hstep := share_eq_ok hnext key
      refine ⟨round, ?_⟩
      by_cases hsends : settings.sends key m = true
      · rw [List.filter_cons_of_pos hsends, Outcome.foldlM_cons_eq_ok_iff] at hround
        obtain ⟨first, hfirst, hrest⟩ := hround
        rw [if_pos hsends, hfirst, Except.ok.injEq] at hstep
        rwa [← hstep]
      · rw [List.filter_cons_of_neg hsends] at hround
        rw [if_neg hsends] at hstep
        rwa [hstep]
    exact ⟨final, Outcome.foldlM_cons_eq_ok_iff.mpr ⟨next, hnext, hfinal⟩⟩

/-- The rounds of a batch, container by container. -/
theorem roundOf_of_roundsOf {batch : List Measurement} {rounds : List (String × Round)}
    (h : store.roundsOf template settings batch = .ok rounds) (key : String) :
    store.roundOf template settings key batch = .ok (Keyed.get? key rounds) :=
  get?_foldlM_share h key

/-- The rounds of a batch fail with the first measurement that its container's round fails with. -/
theorem exists_of_roundsOf_eq_error {batch : List Measurement} {failure : IngestFailure}
    (h : store.roundsOf template settings batch = .error failure) :
    ∃ before m after key round, batch = before ++ m :: after ∧ settings.sends key m = true ∧
      store.roundOf template settings key before = .ok round ∧
      store.roundStep template settings round m = .error failure := by
  obtain ⟨before, m, after, rounds, rfl, hbefore, hfail⟩ := Outcome.exists_of_foldlM_eq_error h
  obtain ⟨ref, hdest, hstep⟩ := share_eq_error hfail
  exact ⟨before, m, after, ref.key, _, rfl, Settings.sends_iff.mpr ⟨ref, hdest, rfl⟩,
    roundOf_of_roundsOf hbefore ref.key, hstep⟩

/-- The rounds of a batch succeed together when each of them succeeds. -/
theorem exists_roundsOf {batch : List Measurement}
    (h : ∀ key, ∃ round, store.roundOf template settings key batch = .ok round) :
    ∃ rounds, store.roundsOf template settings batch = .ok rounds :=
  exists_foldlM_share h

/-- The rounds of a batch have their keys in order. -/
theorem ascending_roundsOf {batch : List Measurement} {rounds : List (String × Round)}
    (h : store.roundsOf template settings batch = .ok rounds) : Keyed.Ascending rounds :=
  Outcome.foldlM_preserves (P := Keyed.Ascending)
    (fun _ _ _ _ hrounds hshare => ascending_share hshare hrounds) Keyed.ascending_nil h

/-- The rounds of a batch are told from the round of each container. -/
theorem roundsOf_of_roundOf_eq {other : Store} {batch reordered : List Measurement}
    {rounds : List (String × Round)} (h : store.roundsOf template settings batch = .ok rounds)
    (hsame : ∀ key, other.roundOf template settings key reordered =
      store.roundOf template settings key batch) :
    other.roundsOf template settings reordered = .ok rounds := by
  have hround (key : String) : other.roundOf template settings key reordered =
      .ok (Keyed.get? key rounds) := by
    rw [hsame, roundOf_of_roundsOf h key]
  obtain ⟨rounds', h'⟩ := exists_roundsOf fun key => ⟨_, hround key⟩
  obtain rfl : rounds' = rounds := by
    refine Keyed.ext_get? (ascending_roundsOf h') (ascending_roundsOf h) fun key => ?_
    rw [← Except.ok.injEq, ← roundOf_of_roundsOf h' key, hround]
  exact h'

/-! ## Finishing the rounds -/

/-- Finishing all rounds finishes each of them, and keeps keys and their order. -/
theorem finishRounds_cons_eq_ok_iff {key : String} {round : Round}
    {rest : List (String × Round)} {containers : List (String × Container)} :
    finishRounds settings ((key, round) :: rest) = .ok containers ↔
      ∃ container others, round.finish settings.retention = .ok container ∧
        finishRounds settings rest = .ok others ∧ containers = (key, container) :: others := by
  simp only [finishRounds, List.mapM_cons, Outcome.bind_eq_ok_iff, Outcome.pure_eq_ok_iff]
  constructor
  · rintro ⟨_, ⟨container, hfinish, rfl⟩, others, hothers, rfl⟩
    exact ⟨container, others, hfinish, hothers, rfl⟩
  · rintro ⟨container, others, hfinish, hothers, rfl⟩
    exact ⟨_, ⟨container, hfinish, rfl⟩, others, hothers, rfl⟩

/-- Finished containers have the keys of their rounds. -/
theorem keys_finishRounds {rounds : List (String × Round)}
    {containers : List (String × Container)} (h : finishRounds settings rounds = .ok containers) :
    Keyed.keys containers = Keyed.keys rounds := by
  induction rounds generalizing containers with
  | nil =>
    obtain rfl : [] = containers := by simpa [finishRounds] using h
    rfl
  | cons entry rest ih =>
    obtain ⟨container, others, _, hothers, rfl⟩ := finishRounds_cons_eq_ok_iff.mp h
    simpa [Keyed.keys] using ih hothers

/-- Finished containers have their keys in order. -/
theorem ascending_finishRounds {rounds : List (String × Round)}
    {containers : List (String × Container)} (h : finishRounds settings rounds = .ok containers)
    (hrounds : Keyed.Ascending rounds) : Keyed.Ascending containers := by
  have hkeys := keys_finishRounds h
  have hasc : (Keyed.keys rounds).Pairwise (· < ·) := List.pairwise_map.mpr hrounds
  rw [← hkeys] at hasc
  exact List.pairwise_map.mp hasc

/-- The container under a key at the end is the finished round under that key. -/
theorem get?_finishRounds {rounds : List (String × Round)}
    {containers : List (String × Container)} (h : finishRounds settings rounds = .ok containers)
    (key : String) :
    match Keyed.get? key rounds with
    | none => Keyed.get? key containers = none
    | some round => ∃ container, round.finish settings.retention = .ok container ∧
        Keyed.get? key containers = some container := by
  induction rounds generalizing containers with
  | nil =>
    obtain rfl : [] = containers := by simpa [finishRounds] using h
    rfl
  | cons entry rest ih =>
    obtain ⟨k, round⟩ := entry
    obtain ⟨container, others, hfinish, hothers, rfl⟩ := finishRounds_cons_eq_ok_iff.mp h
    by_cases hk : k = key
    · simp only [Keyed.get?, if_pos hk]
      exact ⟨container, hfinish, rfl⟩
    · simpa only [Keyed.get?, if_neg hk] using ih hothers

/-- Rounds can be finished when each of them can. -/
theorem exists_finishRounds {rounds : List (String × Round)}
    (h : ∀ entry ∈ rounds, ∃ container, entry.2.finish settings.retention = .ok container) :
    ∃ containers, finishRounds settings rounds = .ok containers := by
  induction rounds with
  | nil => exact ⟨[], rfl⟩
  | cons entry rest ih =>
    obtain ⟨container, hfinish⟩ := h entry (by simp)
    obtain ⟨others, hothers⟩ := ih fun other hother => h other (by simp [hother])
    exact ⟨_, finishRounds_cons_eq_ok_iff.mpr ⟨container, others, hfinish, hothers, rfl⟩⟩

/-! ## The whole batch -/

/-- A batch is taken in when its rounds succeed and all of them can be finished. -/
theorem ingest_eq_ok_iff {batch : List Measurement} {report : IngestReport} {after : Store} :
    store.ingest template settings batch = .ok (report, after) ↔
      ∃ rounds containers, store.roundsOf template settings batch = .ok rounds ∧
        finishRounds settings rounds = .ok containers ∧
        report = reportOf batch rounds containers ∧
        after = { store.commit containers with
          counters := count store.counters batch rounds } := by
  simp only [ingest, Outcome.bind_eq_ok_iff, Outcome.mapError_eq_ok_iff, Outcome.pure_eq_ok_iff,
    Prod.mk.injEq]
  constructor
  · rintro ⟨rounds, hrounds, containers, hcontainers, rfl, rfl⟩
    exact ⟨rounds, containers, hrounds, hcontainers, rfl, rfl⟩
  · rintro ⟨rounds, containers, hrounds, hcontainers, rfl, rfl⟩
    exact ⟨rounds, hrounds, containers, hcontainers, rfl, rfl⟩

/-- A batch fails when one of its rounds does, or else when one of them cannot be finished. -/
theorem ingest_eq_error_iff {batch : List Measurement} {failure : IngestFailure} :
    store.ingest template settings batch = .error failure ↔
      store.roundsOf template settings batch = .error failure ∨
        ∃ rounds e, store.roundsOf template settings batch = .ok rounds ∧
          finishRounds settings rounds = .error e ∧ failure = .path e := by
  simp only [ingest, Outcome.bind_eq_error_iff, Outcome.mapError_eq_error_iff,
    Outcome.pure_ne_error, and_false, exists_false, or_false]
  constructor
  · rintro (hrounds | ⟨rounds, hrounds, e, hfinish, rfl⟩)
    · exact .inl hrounds
    · exact .inr ⟨rounds, e, hrounds, hfinish, rfl⟩
  · rintro (hrounds | ⟨rounds, e, hrounds, hfinish, rfl⟩)
    · exact .inl hrounds
    · exact .inr ⟨rounds, hrounds, e, hfinish, rfl⟩

/-- What a batch leaves under the key of a container: the finished round of that container, or
what was there before when the container has no round. -/
theorem get?_of_ingest {batch : List Measurement} {report : IngestReport} {after : Store}
    (h : store.ingest template settings batch = .ok (report, after)) (key : String) :
    ∃ round, store.roundOf template settings key batch = .ok round ∧
      match round with
      | none => after.get? key = store.get? key
      | some round => ∃ container, round.finish settings.retention = .ok container ∧
          after.get? key = some container := by
  obtain ⟨rounds, containers, hrounds, hfinish, _, rfl⟩ := ingest_eq_ok_iff.mp h
  have hasc := ascending_finishRounds hfinish (ascending_roundsOf hrounds)
  refine ⟨_, roundOf_of_roundsOf hrounds key, ?_⟩
  have hfound := get?_finishRounds hfinish key
  have hafter : Keyed.get? key (Keyed.insertAll containers store.containers) =
      (Keyed.get? key containers).or (store.get? key) := Keyed.get?_insertAll hasc key _
  cases hround : Keyed.get? key rounds with
  | none =>
    simp only [hround] at hfound
    simpa [get?, commit, hfound] using hafter
  | some round =>
    simp only [hround] at hfound
    obtain ⟨container, hcontainer, hget⟩ := hfound
    exact ⟨container, hcontainer, by simpa [get?, commit, hget] using hafter⟩

/-- A batch is taken in when every container's round succeeds and can be finished. -/
theorem exists_ingest {batch : List Measurement}
    (h : ∀ key, ∃ round, store.roundOf template settings key batch = .ok round ∧
      ∀ started, round = some started →
        ∃ container, started.finish settings.retention = .ok container) :
    ∃ report after, store.ingest template settings batch = .ok (report, after) := by
  obtain ⟨rounds, hrounds⟩ := exists_roundsOf fun key => (h key).imp fun _ hround => hround.1
  have hasc := ascending_roundsOf hrounds
  obtain ⟨containers, hcontainers⟩ : ∃ containers,
      finishRounds settings rounds = .ok containers := by
    refine exists_finishRounds fun entry hentry => ?_
    obtain ⟨round, hround, hfinish⟩ := h entry.1
    have hsome := roundOf_of_roundsOf hrounds entry.1
    rw [hround, Keyed.get?_of_mem hasc hentry, Except.ok.injEq] at hsome
    exact hfinish entry.2 hsome
  exact ⟨_, _, ingest_eq_ok_iff.mpr ⟨rounds, containers, hrounds, hcontainers, rfl, rfl⟩⟩

end Store

end ContainerFeed
