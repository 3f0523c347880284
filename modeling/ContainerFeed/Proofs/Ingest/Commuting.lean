import ContainerFeed.Proofs.Ingest.InPlace
import ContainerFeed.Proofs.Ingest.Isolation

/-!
# Batches of different containers commute

What a batch comes to depends only on the containers that its measurements are sent to, and all that
it changes beside them are the counters. So batches that share no container can be taken in in any
order: each of them gets the same report, and the containers and the totals are the same in the end.
-/

namespace ContainerFeed

/-! ## Counters -/

namespace Counters

/-- The counters agree on the totals and the maxima, and may differ in what they tell of the latest
batch. -/
structure SameTotals (a b : Counters) : Prop where
  metricsTotal : b.metricsTotal = a.metricsTotal
  containersMax : b.containersMax = a.containersMax
  samplesMax : b.samplesMax = a.samplesMax
  samplesTotal : b.samplesTotal = a.samplesTotal

variable {a b c : Counters}

/-- Counters agree with themselves. -/
theorem SameTotals.refl (a : Counters) : SameTotals a a :=
  ⟨rfl, rfl, rfl, rfl⟩

/-- Counters that agree with the same ones agree. -/
theorem SameTotals.trans (hab : SameTotals a b) (hbc : SameTotals b c) : SameTotals a c :=
  ⟨hbc.metricsTotal.trans hab.metricsTotal, hbc.containersMax.trans hab.containersMax,
    hbc.samplesMax.trans hab.samplesMax, hbc.samplesTotal.trans hab.samplesTotal⟩

/-- One of the counters is the other one with its own figures of the latest batch. -/
theorem SameTotals.eq_with (h : SameTotals a b) :
    b = { a with
      metricsRecently := b.metricsRecently
      containersRecently := b.containersRecently
      samplesRecently := b.samplesRecently } := by
  obtain ⟨hmetrics, hcontainers, hmax, hsamples⟩ := h
  cases a
  cases b
  simp_all only

/-- Counters that agree do so after the same batch. -/
theorem SameTotals.record (h : SameTotals a b) (metrics containers samples : UInt64) :
    SameTotals (a.record metrics containers samples) (b.record metrics containers samples) where
  metricsTotal := congrArg (· + metrics) h.metricsTotal
  containersMax := congrArg (max · containers) h.containersMax
  samplesMax := congrArg (max · samples) h.samplesMax
  samplesTotal := congrArg (· + samples) h.samplesTotal

/-- The order of two values does not change a maximum. -/
theorem max_right_comm (x y z : UInt64) : max (max x y) z = max (max x z) y := by
  simp only [← UInt64.toNat_inj, UInt64.toNat_max]
  omega

/-- Totals and maxima do not depend on the order of two batches. -/
theorem sameTotals_record_record (counters : Counters)
    (metrics containers samples metrics' containers' samples' : UInt64) :
    SameTotals ((counters.record metrics containers samples).record metrics' containers' samples')
      ((counters.record metrics' containers' samples').record metrics containers samples) where
  metricsTotal := by simp only [Counters.record]; ac_rfl
  containersMax := max_right_comm ..
  samplesMax := max_right_comm ..
  samplesTotal := by simp only [Counters.record]; ac_rfl

end Counters

/-! ## What a batch reads and changes -/

/-- Some measurement of a batch is sent to the container with this key. -/
def Settings.Reaches (settings : Settings) (batch : List Measurement) (key : String) : Prop :=
  ∃ m ∈ batch, settings.sends key m = true

/-- No container gets measurements from both batches. -/
def Settings.Separates (settings : Settings) (a b : List Measurement) : Prop :=
  ∀ key, ¬ (settings.Reaches a key ∧ settings.Reaches b key)

/-- Batches that share no container do so either way round. -/
theorem Settings.Separates.symm {settings : Settings} {a b : List Measurement}
    (h : settings.Separates a b) : settings.Separates b a :=
  fun key hboth => h key hboth.symm

/-- Batches are separate when no measurement of one goes where a measurement of the other goes. -/
theorem Settings.separates_iff {settings : Settings} {a b : List Measurement} :
    settings.Separates a b ↔
      ∀ m ∈ a, ∀ ref ∈ settings.destination? m, ∀ n ∈ b, settings.sends ref.key n = false := by
  constructor
  · intro h m hm ref href n hn
    rw [Bool.eq_false_iff]
    exact fun hsends =>
      h ref.key ⟨⟨m, hm, Settings.sends_iff.mpr ⟨ref, href, rfl⟩⟩, n, hn, hsends⟩
  · rintro h key ⟨⟨m, hm, hsends⟩, n, hn, hsends'⟩
    obtain ⟨ref, href, rfl⟩ := Settings.sends_iff.mp hsends
    simp [h m hm ref href n hn] at hsends'

instance (settings : Settings) (a b : List Measurement) : Decidable (settings.Separates a b) :=
  decidable_of_iff' _ Settings.separates_iff

namespace Store

variable {template : Template} {settings : Settings} {store other : Store}
  {batch : List Measurement} {rounds : List (String × Round)}
  {containers : List (String × Container)}

/-- A step reads no other container than the one its measurement is sent to. -/
theorem roundStep_congr {key : String} {m : Measurement} (hm : settings.sends key m = true)
    (h : other.get? key = store.get? key) (round : Option Round) :
    other.roundStep template settings round m = store.roundStep template settings round m := by
  obtain ⟨ref, hdest, rfl⟩ := Settings.sends_iff.mp hm
  simp only [roundStep, hdest, h]

/-- The round of a container depends only on what is stored under its own key. -/
theorem roundOf_congr {key : String} (h : settings.Reaches batch key →
      other.get? key = store.get? key) :
    other.roundOf template settings key batch = store.roundOf template settings key batch := by
  have hall : ∀ m ∈ batch.filter (settings.sends key),
      settings.sends key m = true ∧ other.get? key = store.get? key := by
    intro m hm
    obtain ⟨hmem, hsends⟩ := List.mem_filter.mp hm
    exact ⟨hsends, h ⟨m, hmem, hsends⟩⟩
  unfold roundOf
  generalize batch.filter (settings.sends key) = own at hall
  generalize (none : Option Round) = round
  induction own generalizing round with
  | nil => rfl
  | cons m ms ih =>
    obtain ⟨⟨hsends, hsame⟩, hrest⟩ := List.forall_mem_cons.mp hall
    rw [List.foldlM_cons, List.foldlM_cons, roundStep_congr hsends hsame]
    exact bind_congr fun next => ih hrest next

/-- The store makes these rounds of a batch, and these containers of the rounds. -/
structure Makes (store : Store) (template : Template) (settings : Settings)
    (batch : List Measurement) (rounds : List (String × Round))
    (containers : List (String × Container)) : Prop where
  roundsOf : store.roundsOf template settings batch = .ok rounds
  finished : finishRounds settings rounds = .ok containers

/-- The store with the rounds of a batch counted and their containers put under their keys. -/
def settled (store : Store) (batch : List Measurement) (rounds : List (String × Round))
    (containers : List (String × Container)) : Store :=
  { store.commit containers with counters := count store.counters batch rounds }

/-- A batch is taken in when its rounds and their containers can be made, and what it leaves is told
from these. -/
theorem ingest_eq_ok_iff_makes {report : IngestReport} {after : Store} :
    store.ingest template settings batch = .ok (report, after) ↔
      ∃ rounds containers, store.Makes template settings batch rounds containers ∧
        report = reportOf batch rounds containers ∧
        after = store.settled batch rounds containers := by
  rw [ingest_eq_ok_iff]
  constructor
  · rintro ⟨rounds, containers, hrounds, hcontainers, rfl, rfl⟩
    exact ⟨rounds, containers, ⟨hrounds, hcontainers⟩, rfl, rfl⟩
  · rintro ⟨rounds, containers, ⟨hrounds, hcontainers⟩, rfl, rfl⟩
    exact ⟨rounds, containers, hrounds, hcontainers, rfl, rfl⟩

/-- A store with the same containers under the keys that a batch reaches makes the same of it. -/
theorem Makes.congr (h : store.Makes template settings batch rounds containers)
    (hagree : ∀ key, settings.Reaches batch key → other.get? key = store.get? key) :
    other.Makes template settings batch rounds containers :=
  ⟨roundsOf_of_roundOf_eq h.roundsOf fun key => roundOf_congr (hagree key), h.finished⟩

/-- After a batch its own containers are new, and the others as they were. -/
theorem Makes.get?_settled (h : store.Makes template settings batch rounds containers)
    (other : Store) (key : String) :
    (other.settled batch rounds containers).get? key =
      (Keyed.get? key containers).or (other.get? key) :=
  Keyed.get?_insertAll (ascending_finishRounds h.finished (ascending_roundsOf h.roundsOf)) key _

/-- A batch changes nothing under a key that it does not reach. -/
theorem Makes.get?_eq_none (h : store.Makes template settings batch rounds containers)
    {key : String} (hkey : ¬ settings.Reaches batch key) : Keyed.get? key containers = none := by
  have hround := roundOf_of_roundsOf h.roundsOf key
  have hnone : batch.filter (settings.sends key) = [] :=
    List.filter_eq_nil_iff.mpr fun m hm hsends => hkey ⟨m, hm, hsends⟩
  rw [roundOf, hnone, Outcome.foldlM_nil_eq_ok_iff] at hround
  have hfound := get?_finishRounds h.finished key
  simpa only [← hround] using hfound

/-! ## Stores that look alike -/

/-- The stores hold the same containers, and their counters agree on totals and maxima. -/
structure Alike (store other : Store) : Prop where
  sameContainers : ∀ key, other.get? key = store.get? key
  sameTotals : store.counters.SameTotals other.counters

/-- A store looks like itself. -/
theorem Alike.refl (store : Store) : store.Alike store :=
  ⟨fun _ => rfl, .refl _⟩

/-- Stores that look like the same one look alike. -/
theorem Alike.trans {third : Store} (h : store.Alike other) (h' : other.Alike third) :
    store.Alike third :=
  ⟨fun key => (h'.sameContainers key).trans (h.sameContainers key),
    h.sameTotals.trans h'.sameTotals⟩

/-- A batch has the same report in stores that look alike, and leaves stores that look alike. -/
theorem Alike.exists_ingest (h : store.Alike other) {report : IngestReport} {after : Store}
    (hingest : store.ingest template settings batch = .ok (report, after)) :
    ∃ after', other.ingest template settings batch = .ok (report, after') ∧ after.Alike after' := by
  obtain ⟨rounds, containers, hmakes, rfl, rfl⟩ := ingest_eq_ok_iff_makes.mp hingest
  have hother := hmakes.congr fun key _ => h.sameContainers key
  refine ⟨_, ingest_eq_ok_iff_makes.mpr ⟨rounds, containers, hother, rfl, rfl⟩, fun key => ?_,
    h.sameTotals.record ..⟩
  rw [hmakes.get?_settled, hmakes.get?_settled, h.sameContainers]

/-- Two batches that share no container can be exchanged. -/
theorem exists_ingest_swap {first second : List Measurement}
    (hseparate : settings.Separates first second) {report report' : IngestReport}
    {middle after : Store}
    (hfirst : store.ingest template settings first = .ok (report, middle))
    (hsecond : middle.ingest template settings second = .ok (report', after)) :
    ∃ middle' after', store.ingest template settings second = .ok (report', middle') ∧
      middle'.ingest template settings first = .ok (report, after') ∧ after.Alike after' := by
  obtain ⟨rounds, containers, hmakes, rfl, rfl⟩ := ingest_eq_ok_iff_makes.mp hfirst
  obtain ⟨rounds', containers', hmakes', rfl, rfl⟩ := ingest_eq_ok_iff_makes.mp hsecond
  -- Neither batch reads what the other one changes.
  have hearly : store.Makes template settings second rounds' containers' := by
    refine hmakes'.congr fun key hreached => ?_
    rw [hmakes.get?_settled, hmakes.get?_eq_none fun hother => hseparate key ⟨hother, hreached⟩,
      Option.none_or]
  have hlate : (store.settled second rounds' containers').Makes template settings first rounds
      containers := by
    refine hmakes.congr fun key hreached => ?_
    rw [hearly.get?_settled, hearly.get?_eq_none fun hother => hseparate key ⟨hreached, hother⟩,
      Option.none_or]
  refine ⟨_, _, ingest_eq_ok_iff_makes.mpr ⟨rounds', containers', hearly, rfl, rfl⟩,
    ingest_eq_ok_iff_makes.mpr ⟨rounds, containers, hlate, rfl, rfl⟩, fun key => ?_,
    Counters.sameTotals_record_record ..⟩
  rw [hmakes.get?_settled, hearly.get?_settled, hmakes'.get?_settled, hmakes.get?_settled]
  by_cases hreached : settings.Reaches first key
  · rw [hearly.get?_eq_none fun hother => hseparate key ⟨hreached, hother⟩, Option.none_or,
      Option.none_or]
  · rw [hmakes.get?_eq_none hreached, Option.none_or, Option.none_or]

/-! ## Runs of batches -/

/-- Takes in batches one after another, with one template and the same settings. -/
def ingestAll (template : Template) (settings : Settings) (batches : List (List Measurement)) :
    Change (List IngestReport) :=
  batches.mapM (ingestInPlace template settings)

variable {batches reordered : List (List Measurement)} {reports : List IngestReport}
  {after : Store}

/-- Without batches nothing happens. -/
theorem on_ingestAll_nil_eq_ok_iff :
    (ingestAll template settings []).on store = (.ok reports, after) ↔
      reports = [] ∧ after = store :=
  Change.on_pure_eq_ok_iff

/-- A run takes in its first batch, and the others on the store that this one leaves. -/
theorem on_ingestAll_cons_eq_ok_iff :
    (ingestAll template settings (batch :: batches)).on store = (.ok reports, after) ↔
      ∃ report next others, store.ingest template settings batch = .ok (report, next) ∧
        (ingestAll template settings batches).on next = (.ok others, after) ∧
        reports = report :: others := by
  simp only [ingestAll, List.mapM_cons, Change.on_bind_eq_ok_iff, on_ingestInPlace_eq_ok_iff,
    Change.on_pure_eq_ok_iff]
  constructor
  · rintro ⟨report, next, hfirst, others, final, hrest, rfl, rfl⟩
    exact ⟨report, next, others, hfirst, hrest, rfl⟩
  · rintro ⟨report, next, others, hfirst, hrest, rfl⟩
    exact ⟨report, next, hfirst, others, after, hrest, rfl, rfl⟩

/-- Batches have the same reports in stores that look alike, and leave stores that look alike. -/
theorem Alike.exists_ingestAll (h : store.Alike other)
    (hrun : (ingestAll template settings batches).on store = (.ok reports, after)) :
    ∃ after', (ingestAll template settings batches).on other = (.ok reports, after') ∧
      after.Alike after' := by
  induction batches generalizing store other reports with
  | nil =>
    obtain ⟨rfl, rfl⟩ := on_ingestAll_nil_eq_ok_iff.mp hrun
    exact ⟨other, on_ingestAll_nil_eq_ok_iff.mpr ⟨rfl, rfl⟩, h⟩
  | cons batch rest ih =>
    obtain ⟨report, next, others, hfirst, hrest, rfl⟩ := on_ingestAll_cons_eq_ok_iff.mp hrun
    obtain ⟨next', hfirst', hnext⟩ := h.exists_ingest hfirst
    obtain ⟨after', hrest', hafter⟩ := ih hnext hrest
    exact ⟨after', on_ingestAll_cons_eq_ok_iff.mpr ⟨report, next', others, hfirst', hrest', rfl⟩,
      hafter⟩

/-- Every batch of a run has a report. -/
theorem length_of_ingestAll
    (hrun : (ingestAll template settings batches).on store = (.ok reports, after)) :
    reports.length = batches.length := by
  induction batches generalizing store reports with
  | nil =>
    obtain ⟨rfl, _⟩ := on_ingestAll_nil_eq_ok_iff.mp hrun
    rfl
  | cons batch rest ih =>
    obtain ⟨report, next, others, _, hrest, rfl⟩ := on_ingestAll_cons_eq_ok_iff.mp hrun
    rw [List.length_cons, List.length_cons, ih hrest]

/-- A run keeps the keys of the store in order. -/
theorem ascending_of_ingestAll (h : Keyed.Ascending store.containers)
    (hrun : (ingestAll template settings batches).on store = (.ok reports, after)) :
    Keyed.Ascending after.containers := by
  induction batches generalizing store reports with
  | nil =>
    obtain ⟨_, rfl⟩ := on_ingestAll_nil_eq_ok_iff.mp hrun
    exact h
  | cons batch rest ih =>
    obtain ⟨report, next, others, hfirst, hrest, _⟩ := on_ingestAll_cons_eq_ok_iff.mp hrun
    obtain ⟨rounds, containers, _, _, rfl⟩ := ingest_eq_ok_iff_makes.mp hfirst
    exact ih (Keyed.ascending_insertAll containers h) hrest

/-- Batches that share no container leave stores that look alike, in whatever order they are taken
in, and each of them has its report in all orders. -/
theorem exists_ingestAll_of_perm (hperm : batches.Perm reordered)
    (hseparate : batches.Pairwise settings.Separates)
    (hrun : (ingestAll template settings batches).on store = (.ok reports, after)) :
    ∃ reports' after', (ingestAll template settings reordered).on store = (.ok reports', after') ∧
      after.Alike after' ∧ (batches.zip reports).Perm (reordered.zip reports') := by
  induction hperm generalizing store reports after with
  | nil => exact ⟨reports, after, hrun, .refl _, .refl _⟩
  | cons batch hrest ih =>
    obtain ⟨report, next, others, hfirst, hothers, rfl⟩ := on_ingestAll_cons_eq_ok_iff.mp hrun
    obtain ⟨others', after', hothers', halike, hzip⟩ := ih hseparate.of_cons hothers
    exact ⟨report :: others', after',
      on_ingestAll_cons_eq_ok_iff.mpr ⟨report, next, others', hfirst, hothers', rfl⟩, halike,
      hzip.cons (batch, report)⟩
  | swap second first rest =>
    obtain ⟨hsecond, _⟩ := List.pairwise_cons.mp hseparate
    obtain ⟨report, next, others, hearly, hothers, rfl⟩ := on_ingestAll_cons_eq_ok_iff.mp hrun
    obtain ⟨report', final, others, hlate, hrest, rfl⟩ := on_ingestAll_cons_eq_ok_iff.mp hothers
    obtain ⟨next', final', hearly', hlate', halike⟩ :=
      exists_ingest_swap (hsecond second (by simp)) hearly hlate
    obtain ⟨after', hrest', hafter⟩ := halike.exists_ingestAll hrest
    exact ⟨report' :: report :: others, after',
      on_ingestAll_cons_eq_ok_iff.mpr ⟨report', next', _, hearly',
        on_ingestAll_cons_eq_ok_iff.mpr ⟨report, final', others, hlate', hrest', rfl⟩, rfl⟩,
      hafter, .swap _ _ _⟩
  | trans hfirst _ ih ih' =>
    obtain ⟨reports', middle, hmiddle, halike, hzip⟩ := ih hseparate hrun
    have hstill := (hfirst.pairwise_iff Settings.Separates.symm).mp hseparate
    obtain ⟨reports'', after', hafter, halike', hzip'⟩ := ih' hstill hmiddle
    exact ⟨reports'', after', hafter, halike.trans halike', hzip.trans hzip'⟩

/-- Batches that share no container can be taken in in any order. Each has the same report in all
orders, and in the end the containers are the same, and so are all counters but those of the
latest batch. -/
theorem separate_batches_commute (hseparate : batches.Pairwise settings.Separates)
    (hrun : (ingestAll template settings batches).on store = (.ok reports, after))
    (hperm : reordered.Perm batches) :
    ∃ reports' after', (ingestAll template settings reordered).on store = (.ok reports', after') ∧
      (∀ key, after'.get? key = after.get? key) ∧
      (Keyed.Ascending store.containers → after'.containers = after.containers) ∧
      after'.counters = { after.counters with
        metricsRecently := after'.counters.metricsRecently
        containersRecently := after'.counters.containersRecently
        samplesRecently := after'.counters.samplesRecently } ∧
      reports'.length = reordered.length ∧
      (reordered.zip reports').Perm (batches.zip reports) := by
  obtain ⟨reports', after', hrun', halike, hzip⟩ :=
    exists_ingestAll_of_perm hperm.symm hseparate hrun
  refine ⟨reports', after', hrun', halike.sameContainers, fun hasc => ?_, ?_,
    length_of_ingestAll hrun', hzip.symm⟩
  · exact Keyed.ext_get? (ascending_of_ingestAll hasc hrun') (ascending_of_ingestAll hasc hrun)
      halike.sameContainers
  · exact halike.sameTotals.eq_with

/-- A batch of one container, one with a measurement of no container, and one of another
container. -/
def apart : List (List Measurement) :=
  let measured (ns : Namespace) (value : Int64) : Measurement := ⟨ns, .int value, .newYear2020⟩
  let cache (container : String) := Testkit.containerNamespace container "cache"
  [[measured (cache "web") 1, measured (cache "web") 3], [measured (.parse "/intel/load") 5],
    [measured (cache "db") 2]]

/-- Batches of two containers and one of none can be taken in backwards. -/
theorem separate_batches_commute_backwards :
    let settings := Settings.resolve []
    ∃ reports after,
      (ingestAll cacheTemplate settings apart).on empty = (.ok reports, after) ∧
      reports = [⟨2, 2, 1, 1⟩, ⟨1, 0, 0, 0⟩, ⟨1, 1, 1, 1⟩] ∧
      apart.Pairwise settings.Separates ∧ apart.reverse.Perm apart ∧
      ∃ reports' after',
        (ingestAll cacheTemplate settings apart.reverse).on empty = (.ok reports', after') ∧
        (∀ key, after'.get? key = after.get? key) ∧
        (Keyed.Ascending empty.containers → after'.containers = after.containers) ∧
        after'.counters = { after.counters with
          metricsRecently := after'.counters.metricsRecently
          containersRecently := after'.counters.containersRecently
          samplesRecently := after'.counters.samplesRecently } ∧
        reports'.length = apart.reverse.length ∧
        (apart.reverse.zip reports').Perm (apart.zip reports) := by
  intro settings
  have hreports : ((ingestAll cacheTemplate settings apart).on empty).1.toOption =
      some [⟨2, 2, 1, 1⟩, ⟨1, 0, 0, 0⟩, ⟨1, 1, 1, 1⟩] := by decide +kernel
  have hseparate : apart.Pairwise settings.Separates := by decide +kernel
  rcases hrun : (ingestAll cacheTemplate settings apart).on empty with ⟨failure | reports, after⟩
  · simp [hrun, Except.toOption] at hreports
  · exact ⟨reports, after, rfl, by simpa [hrun, Except.toOption] using hreports, hseparate,
      apart.reverse_perm, separate_batches_commute hseparate hrun apart.reverse_perm⟩

end Store

end ContainerFeed
