import ContainerFeed.Proofs.Ingest.Rounds
import ContainerFeed.Proofs.Time.Calendar
import ContainerFeed.Testkit.BatchBuilder

/-!
# Containers do not see each other

A batch treats every container as if the measurements of that container were the whole batch.
Its order therefore matters only among the measurements that are sent to one container.
-/

namespace ContainerFeed

/-- A measurement has at most one destination. -/
theorem Settings.sends_filter (settings : Settings) (key other : String)
    (batch : List Measurement) :
    (batch.filter (settings.sends key)).filter (settings.sends other) =
      if other = key then batch.filter (settings.sends key) else [] := by
  split
  · rename_i heq
    rw [heq, List.filter_filter]
    simp only [Bool.and_self]
  · rename_i hne
    refine List.filter_eq_nil_iff.mpr fun m hm hother => hne ?_
    obtain ⟨ref, hdest, hkey⟩ := Settings.sends_iff.mp (List.mem_filter.mp hm).2
    obtain ⟨ref', hdest', hother⟩ := Settings.sends_iff.mp hother
    obtain rfl : ref = ref' := Option.some.inj (hdest.symm.trans hdest')
    rw [← hother, hkey]

namespace Store

variable {store : Store} {template : Template} {settings : Settings}

/-- The measurements of one container make up its round, and nobody else's. -/
theorem roundOf_sends (key other : String) (batch : List Measurement) :
    store.roundOf template settings other (batch.filter (settings.sends key)) =
      if other = key then store.roundOf template settings key batch else .ok none := by
  unfold roundOf
  rw [Settings.sends_filter]
  split <;> rfl

/-- What a successful batch has to offer for every container: a round that can be finished. -/
theorem roundOf_of_ingest {batch : List Measurement} {report : IngestReport} {after : Store}
    (h : store.ingest template settings batch = .ok (report, after)) (key : String) :
    ∃ round, store.roundOf template settings key batch = .ok round ∧
      ∀ started, round = some started →
        ∃ container, started.finish settings.retention = .ok container := by
  obtain ⟨round, hround, hget⟩ := get?_of_ingest h key
  refine ⟨round, hround, ?_⟩
  rintro started rfl
  obtain ⟨container, hfinish, _⟩ := hget
  exact ⟨container, hfinish⟩

/-- Two successful batches leave the same under a key when they make the same round of it. -/
theorem get?_eq_of_roundOf_eq {batch batch' : List Measurement} {report report' : IngestReport}
    {after after' : Store} (h : store.ingest template settings batch = .ok (report, after))
    (h' : store.ingest template settings batch' = .ok (report', after')) {key : String}
    (hsame : store.roundOf template settings key batch' =
      store.roundOf template settings key batch) :
    after'.get? key = after.get? key := by
  obtain ⟨round, hround, hget⟩ := get?_of_ingest h key
  obtain ⟨round', hround', hget'⟩ := get?_of_ingest h' key
  obtain rfl : round' = round := by
    rw [hsame, hround] at hround'
    exact (Except.ok.inj hround').symm
  cases round' with
  | none => exact hget'.trans hget.symm
  | some round =>
    obtain ⟨container, hfinish, hget⟩ := hget
    obtain ⟨container', hfinish', hget'⟩ := hget'
    rw [hfinish, Except.ok.injEq] at hfinish'
    rw [hget', hget, hfinish']

/-- The measurements of one container can be taken in without the others, and come to the same. -/
theorem ingest_sends {batch : List Measurement} {report : IngestReport} {after : Store}
    (h : store.ingest template settings batch = .ok (report, after)) (key : String) :
    ∃ report' after', store.ingest template settings (batch.filter (settings.sends key)) =
      .ok (report', after') ∧ after'.get? key = after.get? key := by
  obtain ⟨report', after', halone⟩ : ∃ report' after',
      store.ingest template settings (batch.filter (settings.sends key)) =
        .ok (report', after') := by
    refine exists_ingest fun other => ?_
    rw [roundOf_sends]
    split
    · exact roundOf_of_ingest h key
    · exact ⟨none, rfl, by simp⟩
  refine ⟨report', after', halone, get?_eq_of_roundOf_eq h halone ?_⟩
  rw [roundOf_sends, if_pos rfl]

/-- The rounds of a batch depend only on the measurements that each container gets. -/
theorem roundsOf_eq_of_sends_eq {batch reordered : List Measurement}
    {rounds : List (String × Round)}
    (h : store.roundsOf template settings batch = .ok rounds)
    (hsame : ∀ key, reordered.filter (settings.sends key) = batch.filter (settings.sends key)) :
    store.roundsOf template settings reordered = .ok rounds :=
  roundsOf_of_roundOf_eq h fun key => by rw [roundOf, roundOf, hsame]

/-- Each container gets from a batch what it would get from its own measurements alone, so an
order that keeps the measurements of each container in place leaves the whole outcome as it is. -/
theorem ingest_isolated {batch : List Measurement} {report : IngestReport} {after : Store}
    (h : store.ingest template settings batch = .ok (report, after)) :
    (∀ key, ∃ report' after',
      store.ingest template settings (batch.filter (settings.sends key)) =
        .ok (report', after') ∧ after'.get? key = after.get? key) ∧
    ∀ reordered : List Measurement, reordered.Perm batch →
      (∀ key, reordered.filter (settings.sends key) = batch.filter (settings.sends key)) →
      store.ingest template settings reordered = .ok (report, after) := by
  refine ⟨ingest_sends h, fun reordered hperm hsame => ?_⟩
  obtain ⟨rounds, containers, hrounds, hfinish, rfl, rfl⟩ := ingest_eq_ok_iff.mp h
  refine ingest_eq_ok_iff.mpr ⟨rounds, containers, ?_, hfinish, ?_, ?_⟩
  · exact roundsOf_eq_of_sends_eq hrounds hsame
  · simp only [reportOf, hperm.length_eq]
  · simp only [count, hperm.length_eq]

/-- A template whose samples hold one value, the size of the cache. -/
def cacheTemplate : Template where
  container := ⟨.emptyMap, .empty⟩
  sample := ⟨.map [("network", .emptyMap)], .ofSpecs [⟨"/cache", "/cache", some (.int 0), []⟩]⟩
  interface := ⟨.emptyMap, .empty⟩

/-- Measurements of two containers, one between those of the other. -/
def interleaved : List Measurement :=
  let measured (container : String) (value : Int64) : Measurement :=
    ⟨Testkit.containerNamespace container "cache", .int value, .newYear2020⟩
  [measured "web" 1, measured "db" 2, measured "web" 3]

/-- Two containers share a batch. Each has its sample also without the other, and the batch can
begin with the second one. -/
theorem ingest_isolated_interleaved :
    let settings := Settings.resolve []
    ∃ report after, Store.empty.ingest cacheTemplate settings interleaved = .ok (report, after) ∧
      report = ⟨3, 3, 2, 2⟩ ∧
      (∀ key, ∃ report' after', Store.empty.ingest cacheTemplate settings
          (interleaved.filter (settings.sends key)) = .ok (report', after') ∧
        after'.get? key = after.get? key) ∧
      ∀ reordered : List Measurement, reordered.Perm interleaved →
        (∀ key, reordered.filter (settings.sends key) =
          interleaved.filter (settings.sends key)) →
        Store.empty.ingest cacheTemplate settings reordered = .ok (report, after) := by
  intro settings
  have hreport : (Store.empty.ingest cacheTemplate settings interleaved).toOption.map Prod.fst =
      some ⟨3, 3, 2, 2⟩ := by decide +kernel
  cases hrun : Store.empty.ingest cacheTemplate settings interleaved with
  | error failure => simp [hrun, Except.toOption] at hreport
  | ok outcome =>
    obtain ⟨report, after⟩ := outcome
    obtain ⟨halone, hreordered⟩ := ingest_isolated hrun
    exact ⟨report, after, rfl, by simpa [hrun, Except.toOption] using hreport, halone, hreordered⟩

end Store

end ContainerFeed
