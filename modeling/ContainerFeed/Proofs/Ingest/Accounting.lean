import ContainerFeed.Proofs.Ingest.Isolation
import ContainerFeed.Proofs.Ingest.WriteOnce
import Mathlib.Algebra.BigOperators.Group.Finset.Piecewise
import Mathlib.Algebra.GroupWithZero.Nat
import Mathlib.Algebra.Order.BigOperators.Group.Finset

/-!
# Reports and counters account for every measurement

Reports and counters are told from the batches alone. A batch touches the containers that
measurements are kept for, and commits one sample to each of them. It routes the kept measurements
that find a place. The counters sum up the batches that have been taken in, and those only.
-/

namespace ContainerFeed

open Round (partOf?)

/-! ## What is counted -/

/-- The sample has specs for a measurement. -/
def Template.fillsSample (template : Template) (m : Measurement) : Bool :=
  (template.sample.mapping.resolve? m.ns.display).isSome

/-- A measurement has a place: in the sample, else in an interface, else in the container if that is
new. -/
def Template.routes (template : Template) (new : Bool) (m : Measurement) : Bool :=
  template.fillsSample m || (template.interface.mapping.resolve? m.ns.display).isSome ||
    new && (template.container.mapping.resolve? m.ns.display).isSome

/-- The keys of the containers that measurements of a batch are kept for. -/
def Settings.touched (settings : Settings) (batch : List Measurement) : Finset String :=
  (batch.filterMap fun m => (settings.destination? m).map ContainerRef.key).toFinset.filter
    fun key => settings.kept key batch ≠ []

/-- A container is touched when some measurement is kept for it. -/
theorem Settings.mem_touched {settings : Settings} {batch : List Measurement} {key : String} :
    key ∈ settings.touched batch ↔ settings.kept key batch ≠ [] := by
  rw [touched, Finset.mem_filter, and_iff_right_iff_imp]
  intro hkept
  obtain ⟨m, hm⟩ := List.exists_mem_of_ne_nil _ hkept
  obtain ⟨ref, hdest, rfl⟩ := Settings.sends_iff.mp (Settings.sends_of_mem_kept hm)
  rw [List.mem_toFinset, List.mem_filterMap]
  exact ⟨m, Settings.mem_of_mem_kept hm, by rw [hdest]; rfl⟩

/-- A measurement is sent to at most one container, so what is sent to several containers together
is at most the batch. -/
theorem Settings.sum_countP_sends_le (settings : Settings) (keys : Finset String)
    (batch : List Measurement) :
    ∑ key ∈ keys, batch.countP (settings.sends key) ≤ batch.length := by
  induction batch with
  | nil => simp
  | cons m rest ih =>
    have hone : (keys.filter fun key => settings.sends key m = true).card ≤ 1 := by
      refine Finset.card_le_one.mpr fun key hkey other hother => ?_
      obtain ⟨ref, hdest, rfl⟩ := Settings.sends_iff.mp (Finset.mem_filter.mp hkey).2
      obtain ⟨ref', hdest', rfl⟩ := Settings.sends_iff.mp (Finset.mem_filter.mp hother).2
      rw [Option.some.inj (hdest.symm.trans hdest')]
    simp only [List.countP_cons, Finset.sum_add_distrib, List.length_cons]
    rw [← Finset.card_filter]
    omega

/-- No more measurements are kept, for all containers together, than there are. -/
theorem Settings.sum_length_kept_le (settings : Settings) (keys : Finset String)
    (batch : List Measurement) :
    ∑ key ∈ keys, (settings.kept key batch).length ≤ batch.length := by
  refine le_trans (Finset.sum_le_sum fun key _ => ?_) (settings.sum_countP_sends_le keys batch)
  rw [List.countP_eq_length_filter]
  exact (List.dropWhile_sublist _).length_le

/-- There are at least as many measurements as containers touched. -/
theorem Settings.card_touched_le (settings : Settings) (batch : List Measurement) :
    (settings.touched batch).card ≤ batch.length := by
  refine le_trans ?_ (settings.sum_length_kept_le (settings.touched batch) batch)
  rw [Finset.card_eq_sum_ones]
  exact Finset.sum_le_sum fun key hkey =>
    List.length_pos_iff.mpr (Settings.mem_touched.mp hkey)

/-! ## What a round counts -/

namespace Round

variable {template : Template} {round next last : Round} {m : Measurement}

/-- The sample has specs for a measurement exactly when the measurement belongs to it. -/
theorem fillsSample_iff :
    template.fillsSample m = true ↔ ∃ specs, partOf? template m = some (.sample, specs) := by
  simp only [partOf?_eq_sample_iff, Template.fillsSample, Option.isSome_iff_exists]

/-- A measurement has a place when it has a part that is open. -/
theorem routes_iff : template.routes round.discovered m = true ↔
    ∃ part specs, partOf? template m = some (part, specs) ∧ round.IsOpen part := by
  unfold Template.routes Template.fillsSample partOf? placeOf
  cases template.sample.mapping.resolve? m.ns.display <;>
    cases template.interface.mapping.resolve? m.ns.display <;>
    cases template.container.mapping.resolve? m.ns.display <;> simp [IsOpen]

/-- A measurement with a place is counted, and marks the sample if that is its place. -/
theorem counts_of_write (h : round.write template m = .ok next) :
    next.discovered = round.discovered ∧
      next.routed = round.routed + (if template.routes round.discovered m then 1 else 0) ∧
      next.produced = (round.produced || template.fillsSample m) := by
  rcases write_cases h with ⟨rfl, hclosed⟩ | ⟨target, specs, document, hpart, hopen, _, rfl⟩
  · have hroutes : ¬ template.routes next.discovered m = true := fun hroutes => by
      obtain ⟨part, specs, hpart, hopen⟩ := routes_iff.mp hroutes
      exact hclosed part specs hpart hopen
    have hmiss : template.fillsSample m = false := by
      rw [Bool.eq_false_iff]
      intro hfills
      obtain ⟨specs, hpart⟩ := fillsSample_iff.mp hfills
      exact hclosed .sample specs hpart trivial
    rw [if_neg hroutes, hmiss, Bool.or_false]
    exact ⟨rfl, rfl, rfl⟩
  · have hfills : template.fillsSample m = true ↔ target = .sample := by
      simp [fillsSample_iff, hpart]
    rw [if_pos (routes_iff.mpr ⟨target, specs, hpart, hopen⟩)]
    cases target with
    | sample => simp [put, hfills.mpr rfl]
    | interface name => simp [put, Bool.eq_false_iff.mpr (hfills.not.mpr (by simp))]
    | container => simp [put, Bool.eq_false_iff.mpr (hfills.not.mpr (by simp))]

/-- All measurements of a round that have a place are counted. -/
theorem counts_of_writes {ms : List Measurement}
    (h : ms.foldlM (fun round m => round.write template m) round = .ok last) :
    last.routed = round.routed + ms.countP (template.routes round.discovered) ∧
      last.produced = (round.produced || ms.any template.fillsSample) := by
  induction ms generalizing round with
  | nil =>
    obtain rfl := Outcome.foldlM_nil_eq_ok_iff.mp h
    simp
  | cons m ms ih =>
    obtain ⟨next, hnext, hrest⟩ := Outcome.foldlM_cons_eq_ok_iff.mp h
    obtain ⟨hdiscovered, hrouted, hproduced⟩ := counts_of_write hnext
    obtain ⟨hrouted', hproduced'⟩ := ih hrest
    rw [hrouted', hproduced', hdiscovered, hrouted, hproduced, List.countP_cons, List.any_cons,
      Bool.or_assoc]
    exact ⟨by omega, rfl⟩

end Round

/-! ## What a batch counts -/

namespace Store

variable {template : Template} {settings : Settings} {store : Store} {batch : List Measurement}
  {rounds : List (String × Round)}

/-- A round has counted the measurements that are kept for its container. -/
theorem counts_of_roundsOf (h : store.roundsOf template settings batch = .ok rounds)
    {entry : String × Round} (hentry : entry ∈ rounds) :
    entry.2.routed =
        (settings.kept entry.1 batch).countP (template.routes (store.get? entry.1).isNone) ∧
      entry.2.produced = (settings.kept entry.1 batch).any template.fillsSample := by
  have hround := roundOf_of_roundsOf h entry.1
  rw [Keyed.get?_of_mem (ascending_roundsOf h) hentry] at hround
  rcases starts_of_roundOf_eq_ok hround with
    ⟨_, hnone⟩ | ⟨first, rest, started, last, hkept, hstarts, hlast, hwrites⟩
  · simp at hnone
  · obtain rfl := Option.some.inj hlast
    have hsends : settings.sends entry.1 first = true :=
      Settings.sends_of_mem_kept (hkept.symm ▸ List.mem_cons_self)
    obtain ⟨ref, timestamp, stamp, _, _, _, _, hstart⟩ := startAt_of_starts hstarts hsends
    obtain ⟨document, container, _, _, rfl⟩ := Round.startAt_eq_ok_iff.mp hstart
    obtain ⟨hrouted, hproduced⟩ := Round.counts_of_writes hwrites
    rw [hkept, hrouted, hproduced]
    simp

/-- The rounds of a batch belong to the containers that it touches. -/
theorem toFinset_keys_roundsOf (h : store.roundsOf template settings batch = .ok rounds) :
    (Keyed.keys rounds).toFinset = settings.touched batch := by
  ext key
  rw [List.mem_toFinset, Keyed.mem_keys_iff, Settings.mem_touched]
  rcases starts_of_roundOf_eq_ok (roundOf_of_roundsOf h key) with
    ⟨hkept, hnone⟩ | ⟨first, rest, started, last, hkept, _, hlast, _⟩
  · simp [hkept, hnone]
  · simp [hkept, hlast]

/-- A sum over the rounds of a batch is a sum over the containers that it touches. -/
theorem sum_roundsOf (h : store.roundsOf template settings batch = .ok rounds)
    (f : String → Nat) :
    (rounds.map fun entry => f entry.1).sum = ∑ key ∈ settings.touched batch, f key := by
  rw [← toFinset_keys_roundsOf h, List.sum_toFinset f (Keyed.nodup_keys (ascending_roundsOf h)),
    Keyed.keys, List.map_map]
  rfl

/-- Counting rounds of a batch is counting containers that it touches. -/
theorem countP_roundsOf (h : store.roundsOf template settings batch = .ok rounds)
    (p : String → Bool) :
    rounds.countP (fun entry => p entry.1) = ((settings.touched batch).filter (p ·)).card := by
  rw [← toFinset_keys_roundsOf h, ← List.toFinset_filter,
    List.toFinset_card_of_nodup ((Keyed.nodup_keys (ascending_roundsOf h)).filter p),
    ← List.countP_eq_length_filter, Keyed.keys, List.countP_map]
  rfl

/-- There is one round for each container that the batch touches. -/
theorem length_roundsOf (h : store.roundsOf template settings batch = .ok rounds) :
    rounds.length = (settings.touched batch).card := by
  simpa using countP_roundsOf h fun _ => true

/-- The total is the sum of what the rounds have routed. -/
theorem routedTotal_eq_sum (rounds : List (String × Round)) :
    routedTotal rounds = (rounds.map fun entry => entry.2.routed).sum := by
  induction rounds with
  | nil => rfl
  | cons entry rest ih => simp [routedTotal, ih]

end Store

namespace Delivery

/-- The keys of the containers that the delivery keeps measurements for. -/
def touched (delivery : Delivery) : Finset String :=
  delivery.settings.touched delivery.batch

/-- Of these, the keys of the containers that get values in the sample itself. -/
def filled (delivery : Delivery) : Finset String :=
  delivery.touched.filter fun key => (delivery.kept key).any delivery.template.fillsSample

/-- How many of the kept measurements have a place, where the containers of the store are not
new. -/
def routed (delivery : Delivery) (store : Store) : Nat :=
  ∑ key ∈ delivery.touched,
    (delivery.kept key).countP (delivery.template.routes (store.get? key).isNone)

/-- The counters after the delivery has been taken in. -/
def countedIn (delivery : Delivery) (counters : Counters) : Counters :=
  counters.record (.ofNat delivery.batch.length) (.ofNat delivery.touched.card)
    (.ofNat delivery.filled.card)

/-- No more measurements are routed than the batch has. -/
theorem routed_le (delivery : Delivery) (store : Store) :
    delivery.routed store ≤ delivery.batch.length :=
  le_trans (Finset.sum_le_sum fun _ _ => List.countP_le_length)
    (delivery.settings.sum_length_kept_le delivery.touched delivery.batch)

/-- No more containers are touched than the batch has measurements. -/
theorem card_touched_le (delivery : Delivery) : delivery.touched.card ≤ delivery.batch.length :=
  delivery.settings.card_touched_le delivery.batch

/-- The containers whose samples get values are among those touched. -/
theorem card_filled_le (delivery : Delivery) : delivery.filled.card ≤ delivery.touched.card :=
  Finset.card_filter_le _ _

/-- What a delivery reports, and how it is counted. -/
theorem report_of_change {delivery : Delivery} {before after : Store} {report : IngestReport}
    (h : delivery.change.on before = (.ok report, after)) :
    report = ⟨delivery.batch.length, delivery.routed before, delivery.touched.card,
        delivery.touched.card⟩ ∧
      after.counters = delivery.countedIn before.counters := by
  obtain ⟨rounds, containers, hrounds, hfinish, rfl, rfl⟩ :=
    Store.ingest_eq_ok_iff.mp (Store.on_change_eq_ok_iff.mp h)
  have hlength : rounds.length = delivery.touched.card := Store.length_roundsOf hrounds
  have hcontainers : containers.length = rounds.length := by
    simpa [Keyed.keys] using congrArg List.length (Store.keys_finishRounds hfinish)
  have hrouted : Store.routedTotal rounds = delivery.routed before := by
    rw [Store.routedTotal_eq_sum, routed, touched, ← Store.sum_roundsOf hrounds]
    exact congrArg List.sum
      (List.map_congr_left fun entry hentry => (Store.counts_of_roundsOf hrounds hentry).1)
  have hfilled : (Keyed.values rounds).countP Round.produced = delivery.filled.card := by
    rw [filled, touched, ← Store.countP_roundsOf hrounds fun key =>
      (delivery.kept key).any delivery.template.fillsSample, Keyed.values, List.countP_map]
    exact List.countP_congr fun entry hentry => by
      rw [Function.comp_apply, (Store.counts_of_roundsOf hrounds hentry).2]
      rfl
  refine ⟨?_, ?_⟩
  · rw [Store.reportOf, hcontainers, hlength, hrouted]
  · rw [countedIn, ← hlength, ← hfilled]
    rfl

/-- A report accounts for every measurement of a delivery. -/
structure Accounted (delivery : Delivery) (before : Store) (report : IngestReport) : Prop where
  received : report.metricsReceived = delivery.batch.length
  touched : report.containersTouched = delivery.touched.card
  committed : report.samplesCommitted = delivery.touched.card
  routed : report.metricsRouted = delivery.routed before
  routedAtMost : report.metricsRouted ≤ report.metricsReceived
  filledAtMost : delivery.filled.card ≤ report.samplesCommitted

/-- The report of a delivery that is taken in accounts for its measurements. -/
theorem accounted_of_change {delivery : Delivery} {before after : Store} {report : IngestReport}
    (h : delivery.change.on before = (.ok report, after)) : delivery.Accounted before report := by
  obtain ⟨rfl, _⟩ := report_of_change h
  exact ⟨rfl, rfl, rfl, rfl, delivery.routed_le before, delivery.card_filled_le⟩

end Delivery

/-! ## Runs of deliveries -/

/-- The counters sum up some deliveries that have been taken in, each with its report. -/
structure Counters.SumUp (counters : Counters) (taken : List (Delivery × IngestReport)) : Prop where
  metricsTotal : counters.metricsTotal.toNat = (taken.map fun entry => entry.1.batch.length).sum
  containersMax : counters.containersMax.toNat =
    (taken.map fun entry => entry.2.containersTouched).foldl max 0
  samplesTotal : counters.samplesTotal.toNat = (taken.map fun entry => entry.1.filled.card).sum
  samplesMax : counters.samplesMax.toNat = (taken.map fun entry => entry.1.filled.card).foldl max 0
  recently : (counters.metricsRecently.toNat, counters.containersRecently.toNat,
      counters.samplesRecently.toNat) =
    match taken.getLast? with
    | none => (0, 0, 0)
    | some (delivery, report) =>
      (delivery.batch.length, report.containersTouched, delivery.filled.card)

/-- Fresh counters sum up no deliveries. -/
theorem Counters.sumUp_zero : Counters.zero.SumUp [] :=
  ⟨rfl, rfl, rfl, rfl, rfl⟩

/-- There are no more samples with values than measurements, also in total. -/
theorem Delivery.sum_filled_le (taken : List (Delivery × IngestReport)) :
    (taken.map fun entry => entry.1.filled.card).sum ≤
      (taken.map fun entry => entry.1.batch.length).sum :=
  List.sum_le_sum fun entry _ => le_trans entry.1.card_filled_le entry.1.card_touched_le

/-- A last item adds its own value to a sum. -/
theorem sum_map_concat {α : Type} (f : α → Nat) (items : List α) (last : α) :
    ((items ++ [last]).map f).sum = (items.map f).sum + f last := by
  simp

/-- A last item raises a maximum to its own value, if that is greater. -/
theorem foldl_max_map_concat {α : Type} (f : α → Nat) (items : List α) (last : α) :
    ((items ++ [last]).map f).foldl max 0 = max ((items.map f).foldl max 0) (f last) := by
  simp

/-- Counters that sum up some deliveries sum up one more after it has been counted in, as long as
the total number of measurements fits. -/
theorem Counters.SumUp.countedIn {counters : Counters} {taken : List (Delivery × IngestReport)}
    (h : counters.SumUp taken) {delivery : Delivery} {report : IngestReport}
    (hreport : report.containersTouched = delivery.touched.card)
    (hfits : ((taken ++ [(delivery, report)]).map fun entry => entry.1.batch.length).sum < 2 ^ 64) :
    (delivery.countedIn counters).SumUp (taken ++ [(delivery, report)]) := by
  have htouched := delivery.card_touched_le
  have hfilled := delivery.card_filled_le
  have hsamples := Delivery.sum_filled_le taken
  simp only [sum_map_concat] at hfits
  have hcount {n : Nat} (hn : n ≤ delivery.batch.length) : (UInt64.ofNat n).toNat = n :=
    UInt64.toNat_ofNat'.trans (Nat.mod_eq_of_lt (by omega))
  have hmetrics := hcount le_rfl
  have hcontainers := hcount htouched
  have hfull := hcount (hfilled.trans htouched)
  constructor
  · rw [sum_map_concat, Delivery.countedIn, Counters.record, UInt64.toNat_add, h.metricsTotal,
      hmetrics]
    exact Nat.mod_eq_of_lt hfits
  · rw [foldl_max_map_concat, Delivery.countedIn, Counters.record, UInt64.toNat_max,
      h.containersMax, hcontainers, hreport]
  · rw [sum_map_concat, Delivery.countedIn, Counters.record, UInt64.toNat_add, h.samplesTotal,
      hfull]
    refine Nat.mod_eq_of_lt (lt_of_le_of_lt ?_ hfits)
    exact Nat.add_le_add hsamples (hfilled.trans htouched)
  · rw [foldl_max_map_concat, Delivery.countedIn, Counters.record, UInt64.toNat_max, h.samplesMax,
      hfull]
  · simp only [Delivery.countedIn, Counters.record, hmetrics, hcontainers, hfull, hreport,
      List.getLast?_concat]

namespace Store

/-- The deliveries of a run that are taken in, each with its report. -/
def intakes (store : Store) : List Delivery → List (Delivery × IngestReport)
  | [] => []
  | delivery :: rest => match delivery.change.on store with
    | (.ok report, after) => (delivery, report) :: after.intakes rest
    | (.error _, after) => after.intakes rest

section

variable {store after : Store} {delivery : Delivery} {report : IngestReport}

/-- A delivery that is taken in comes first, and the others meet what it leaves. -/
theorem intakes_cons_of_ok (h : delivery.change.on store = (.ok report, after))
    (rest : List Delivery) :
    store.intakes (delivery :: rest) = (delivery, report) :: after.intakes rest ∧
      store.receiveAll (delivery :: rest) = after.receiveAll rest := by
  have hafter : store.receive delivery = after := by rw [receive, h]
  refine ⟨by simp only [intakes, h], ?_⟩
  rw [← hafter]
  rfl

/-- A delivery that fails is not taken in, and the others meet the store as it was. -/
theorem intakes_cons_of_error {failure : IngestFailure}
    (h : (delivery.change.on store).1 = .error failure) (rest : List Delivery) :
    store.intakes (delivery :: rest) = store.intakes rest ∧
      store.receiveAll (delivery :: rest) = store.receiveAll rest := by
  have hsame : store.receive delivery = store := by
    rcases store.receive_cases delivery with ⟨report, hreport⟩ | hsame
    · simp [hreport] at h
    · exact hsame
  have hrun : delivery.change.on store = (.error failure, store) := Prod.ext h hsame
  refine ⟨by simp only [intakes, hrun], ?_⟩
  rw [receiveAll, List.foldl_cons, hsame]
  rfl

end

/-- A run goes on from counters that sum up what has been taken in before it. -/
theorem sumUp_receiveAll {store : Store} {taken : List (Delivery × IngestReport)}
    (h : store.counters.SumUp taken) (deliveries : List Delivery)
    (hfits : ((taken ++ store.intakes deliveries).map fun entry => entry.1.batch.length).sum <
      2 ^ 64) :
    (store.receiveAll deliveries).counters.SumUp (taken ++ store.intakes deliveries) := by
  induction deliveries generalizing store taken with
  | nil => simpa [receiveAll, intakes] using h
  | cons delivery rest ih =>
    rcases hchange : delivery.change.on store with ⟨failure | report, after⟩
    · obtain ⟨htaken, hrun⟩ := intakes_cons_of_error (congrArg Prod.fst hchange) rest
      rw [htaken] at hfits ⊢
      rw [hrun]
      exact ih h hfits
    · obtain ⟨htaken, hrun⟩ := intakes_cons_of_ok hchange rest
      obtain ⟨_, hcounters⟩ := Delivery.report_of_change hchange
      rw [htaken, List.append_cons] at hfits ⊢
      rw [hrun]
      refine ih ?_ hfits
      rw [hcounters]
      refine h.countedIn (Delivery.accounted_of_change hchange).touched ?_
      rw [List.map_append, List.sum_append] at hfits
      omega

/-- The report of every delivery that is taken in accounts for its measurements, and after any run
of deliveries the counters sum up those that have been taken in. -/
theorem deliveries_accounted :
    (∀ (delivery : Delivery) (before after : Store) (report : IngestReport),
      delivery.change.on before = (.ok report, after) → delivery.Accounted before report) ∧
    ∀ deliveries : List Delivery,
      ((empty.intakes deliveries).map fun entry => entry.1.batch.length).sum < 2 ^ 64 →
      (empty.receiveAll deliveries).counters.SumUp (empty.intakes deliveries) :=
  ⟨fun _ _ _ _ => Delivery.accounted_of_change,
    sumUp_receiveAll (show empty.counters.SumUp [] from Counters.sumUp_zero)⟩

/-- A batch with cache sizes of two containers, one that its template fails with, and one with a
cache size and a measurement without a place. -/
def cacheDeliveries : List Delivery :=
  let settings := Settings.resolve []
  let measured (path : String) : Measurement :=
    ⟨Testkit.containerNamespace "web" path, .int 4, .newYear2020⟩
  [⟨cacheTemplate, settings, interleaved⟩,
    ⟨{ cacheTemplate with sample := ⟨.leaf (.int 0), .empty⟩ }, settings, interleaved⟩,
    ⟨cacheTemplate, settings, [measured "cache", measured "load"]⟩]

/-- The delivery that fails is not counted, and the last one is the latest. -/
theorem deliveries_accounted_cache :
    let delivery : Delivery := ⟨cacheTemplate, .resolve [], interleaved⟩
    ∃ report after,
      delivery.change.on empty = (.ok report, after) ∧ delivery.Accounted empty report ∧
      report = ⟨3, 3, 2, 2⟩ ∧
      ((empty.intakes cacheDeliveries).map fun entry => entry.1.batch.length).sum < 2 ^ 64 ∧
      (empty.receiveAll cacheDeliveries).counters.SumUp (empty.intakes cacheDeliveries) ∧
      (empty.intakes cacheDeliveries).map Prod.snd = [⟨3, 3, 2, 2⟩, ⟨2, 1, 1, 1⟩] ∧
      (empty.receiveAll cacheDeliveries).counters = ⟨5, 2, 1, 2, 1, 2, 3⟩ := by
  intro delivery
  have hreport : (delivery.change.on empty).1.toOption = some ⟨3, 3, 2, 2⟩ := by decide +kernel
  obtain ⟨hfits, hreports, hcounters⟩ :
      ((empty.intakes cacheDeliveries).map fun entry => entry.1.batch.length).sum < 2 ^ 64 ∧
      (empty.intakes cacheDeliveries).map Prod.snd = [⟨3, 3, 2, 2⟩, ⟨2, 1, 1, 1⟩] ∧
      (empty.receiveAll cacheDeliveries).counters = ⟨5, 2, 1, 2, 1, 2, 3⟩ := by decide +kernel
  rcases hchange : delivery.change.on empty with ⟨failure | report, after⟩
  · simp [hchange, Except.toOption] at hreport
  · exact ⟨report, after, rfl, deliveries_accounted.1 delivery empty after report hchange,
      by simpa [hchange, Except.toOption] using hreport, hfits,
      deliveries_accounted.2 cacheDeliveries hfits, hreports, hcounters⟩

end Store

end ContainerFeed
