import ContainerFeed.Proofs.Time.Calendar
import ContainerFeed.Store.History
import Mathlib.Data.List.Induction
import Mathlib.Data.List.Pairwise

/-!
# The retention window

A history is what is left of the samples that have arrived one after another. It is always a tail
of them. When they arrive in the order of their times, it is the longest tail that the bounds
allow; a sample that arrives late can stay behind a later one and outlive its time.
-/

namespace ContainerFeed

/-- Samples in the order of their times. -/
def Chronological (samples : List Sample) : Prop :=
  samples.Pairwise fun earlier later => earlier.timestamp.instant ≤ later.timestamp.instant

instance (samples : List Sample) : Decidable (Chronological samples) :=
  inferInstanceAs (Decidable (samples.Pairwise fun _ _ => _ ≤ _))

/-- A tail with a property, of which every other tail with the property is a tail in turn. -/
def IsLongestTail {α : Type} (P : List α → Prop) (whole tail : List α) : Prop :=
  tail <:+ whole ∧ P tail ∧ ∀ other, other <:+ whole → P other → other <:+ tail

namespace Retention

variable {policy : Retention} {history samples : List Sample} {latest : Sample}
  {horizon : Timestamp}

/-- The history after samples have arrived one after another. -/
def historyOf (policy : Retention) (samples : List Sample) : List Sample :=
  samples.foldl policy.push []

/-- Both bounds hold of some samples beside one of the given time: there are not too many of them,
and none lies before the horizon. -/
structure Allows (policy : Retention) (time : Timestamp) (kept : List Sample) : Prop where
  count : 0 < policy.depth → kept.length ≤ policy.depth
  age : ∀ horizon, policy.horizon? time = some horizon →
    ∀ sample ∈ kept, horizon.instant ≤ sample.timestamp.instant

/-- The latest sample is taken in after the others. -/
@[simp]
theorem historyOf_concat (policy : Retention) (samples : List Sample) (latest : Sample) :
    policy.historyOf (samples ++ [latest]) = policy.push (policy.historyOf samples) latest := by
  simp [historyOf]

/-- A horizon lies a positive span before the time that it belongs to. -/
theorem horizon?_eq_some {time : Timestamp} (h : policy.horizon? time = some horizon) :
    0 < policy.span.nanoseconds ∧ time.sub? policy.span = some horizon ∧
      horizon.instant = time.instant - policy.span.nanoseconds := by
  unfold horizon? at h
  split at h
  · rename_i hpositive
    exact ⟨hpositive, h, (Timestamp.sub?_eq_some h).1⟩
  · simp at h

/-! ## Any order of arrival -/

/-- Making room drops samples at the front only. -/
theorem makeRoom_suffix (policy : Retention) (history : List Sample) :
    policy.makeRoom history <:+ history := by
  unfold makeRoom
  split
  · exact List.drop_suffix 1 history
  · exact List.suffix_refl history

/-- The samples dropped as too old are at the front. -/
theorem dropBefore_suffix (horizon : Option Timestamp) (history : List Sample) :
    dropBefore horizon history <:+ history := by
  cases horizon with
  | none => exact List.suffix_refl history
  | some horizon => exact List.dropWhile_suffix _

/-- What stays of a history beside a new sample is a tail of it. -/
theorem push_suffix (policy : Retention) (history : List Sample) (latest : Sample) :
    policy.push history latest <:+ history ++ [latest] :=
  List.suffix_append_self_iff.mpr
    ((dropBefore_suffix _ _).trans (policy.makeRoom_suffix history))

/-- A history is a tail of the samples that have arrived. -/
theorem historyOf_suffix (policy : Retention) (samples : List Sample) :
    policy.historyOf samples <:+ samples := by
  induction samples using List.reverseRecOn with
  | nil => exact List.suffix_refl []
  | append_singleton samples latest ih =>
    rw [historyOf_concat]
    exact (policy.push_suffix _ latest).trans (List.suffix_append_self_iff.mpr ih)

/-- The sample that has arrived last stands last. -/
theorem getLast?_historyOf (policy : Retention) (samples : List Sample) :
    (policy.historyOf samples).getLast? = samples.getLast? := by
  cases samples using List.reverseRecOn with
  | nil => rfl
  | append_singleton samples latest => simp [push]

/-- After making room there is room for one more. -/
theorem length_makeRoom_lt (hdepth : 0 < policy.depth) (h : history.length ≤ policy.depth) :
    (policy.makeRoom history).length < policy.depth := by
  unfold makeRoom
  split
  · rw [List.length_drop]
    omega
  · omega

/-- No history grows longer than the depth. -/
theorem length_push_le (hdepth : 0 < policy.depth) (h : history.length ≤ policy.depth) :
    (policy.push history latest).length ≤ policy.depth := by
  have hroom := length_makeRoom_lt hdepth h
  have hdrop :=
    (dropBefore_suffix (policy.horizon? latest.timestamp) (policy.makeRoom history)).length_le
  rw [push, List.length_append, List.length_singleton]
  omega

/-- A history is never longer than its depth. -/
theorem length_historyOf_le (hdepth : 0 < policy.depth) (samples : List Sample) :
    (policy.historyOf samples).length ≤ policy.depth := by
  induction samples using List.reverseRecOn with
  | nil => exact Nat.zero_le _
  | append_singleton samples latest ih =>
    rw [historyOf_concat]
    exact length_push_le hdepth ih

/-- Without bounds every sample stays. -/
theorem historyOf_of_unbounded (hdepth : policy.depth = 0) (hspan : ¬ policy.span.IsPositive)
    (samples : List Sample) : policy.historyOf samples = samples := by
  induction samples using List.reverseRecOn with
  | nil => rfl
  | append_singleton samples latest ih =>
    rw [historyOf_concat, ih]
    simp [push, makeRoom, horizon?, hdepth, hspan, dropBefore]

/-- A first sample before the horizon is dropped. -/
theorem dropBefore_cons_of_lt {oldest : Sample}
    (h : oldest.timestamp.instant < horizon.instant) (rest : List Sample) :
    dropBefore (some horizon) (oldest :: rest) = dropBefore (some horizon) rest := by
  simp [dropBefore, h]

/-- A first sample that is not before the horizon stays, with all behind it. -/
theorem dropBefore_cons_of_le {oldest : Sample}
    (h : horizon.instant ≤ oldest.timestamp.instant) (rest : List Sample) :
    dropBefore (some horizon) (oldest :: rest) = oldest :: rest := by
  simp [dropBefore, h]

/-- Dropping from the front leaves nothing before the horizon exactly when no sample before it
stands behind one that is not. -/
theorem fresh_dropBefore_iff :
    (∀ kept ∈ dropBefore (some horizon) history, horizon.instant ≤ kept.timestamp.instant) ↔
      history.Pairwise fun earlier later =>
        horizon.instant ≤ earlier.timestamp.instant →
          horizon.instant ≤ later.timestamp.instant := by
  induction history with
  | nil => simp [dropBefore]
  | cons oldest rest ih =>
    rcases Int.lt_or_le oldest.timestamp.instant horizon.instant with hstale | hfresh
    · have hvacuous : ∀ later ∈ rest, horizon.instant ≤ oldest.timestamp.instant →
          horizon.instant ≤ later.timestamp.instant := by omega
      rw [dropBefore_cons_of_lt hstale, ih, List.pairwise_cons]
      exact ⟨fun h => ⟨hvacuous, h⟩, fun h => h.2⟩
    · rw [dropBefore_cons_of_le hfresh, List.forall_mem_cons, List.pairwise_cons]
      constructor
      · rintro ⟨_, hrest⟩
        refine ⟨fun later hlater _ => hrest later hlater, ?_⟩
        exact List.pairwise_of_forall_mem_list fun _ _ later hlater _ => hrest later hlater
      · exact fun h => ⟨hfresh, fun later hlater => h.1 later hlater hfresh⟩

/-! ## Samples in the order of their times -/

/-- Samples in the order of their times are dropped as soon as they lie before the horizon. -/
theorem fresh_of_chronological (h : Chronological history) :
    ∀ kept ∈ dropBefore (some horizon) history, horizon.instant ≤ kept.timestamp.instant :=
  fresh_dropBefore_iff.mpr (h.imp fun hle hfresh => Int.le_trans hfresh hle)

/-- A tail without samples before the horizon is not shortened. -/
theorem suffix_dropBefore {tail : List Sample} (h : tail <:+ history)
    (hfresh : ∀ horizon, policy.horizon? latest.timestamp = some horizon →
      ∀ sample ∈ tail, horizon.instant ≤ sample.timestamp.instant) :
    tail <:+ dropBefore (policy.horizon? latest.timestamp) history := by
  cases hhorizon : policy.horizon? latest.timestamp with
  | none => exact h
  | some horizon =>
    have hfresh := hfresh horizon hhorizon
    induction history with
    | nil => simpa [dropBefore] using h
    | cons oldest rest ih =>
      rcases Int.lt_or_le oldest.timestamp.instant horizon.instant with hstale | hle
      · rw [dropBefore_cons_of_lt hstale]
        refine ih ((List.suffix_cons_iff.mp h).resolve_left ?_)
        rintro rfl
        have := hfresh oldest (by simp)
        omega
      · rwa [dropBefore_cons_of_le hle]

/-- A tail that leaves room for one more sample is not shortened to make room. -/
theorem suffix_makeRoom {tail : List Sample} (h : tail <:+ history)
    (hcount : 0 < policy.depth → tail.length < policy.depth) :
    tail <:+ policy.makeRoom history := by
  unfold makeRoom
  split
  · refine List.suffix_of_suffix_length_le h (List.drop_suffix 1 history) ?_
    rw [List.length_drop]
    omega
  · exact h

/-- One more sample keeps a history within the bounds of all that have arrived. -/
theorem allows_push (hordered : Chronological (samples ++ [latest]))
    (hhistory : history <:+ samples) (hcount : 0 < policy.depth → history.length ≤ policy.depth)
    (hallows : ∀ arrived ∈ samples, policy.Allows arrived.timestamp history) :
    ∀ arrived ∈ samples ++ [latest],
      policy.Allows arrived.timestamp (policy.push history latest) := by
  intro arrived harrived
  refine ⟨fun hdepth => length_push_le hdepth (hcount hdepth), ?_⟩
  intro horizon hhorizon sample hsample
  rcases List.mem_append.mp hsample with hstays | hnew
  · rcases List.mem_append.mp harrived with hearlier | hlast
    · have hsub := (dropBefore_suffix (policy.horizon? latest.timestamp) _).trans
        (policy.makeRoom_suffix history)
      exact (hallows arrived hearlier).age horizon hhorizon sample (hsub.subset hstays)
    · obtain rfl := List.mem_singleton.mp hlast
      rw [hhorizon] at hstays
      refine fresh_of_chronological ?_ sample hstays
      exact hordered.sublist ((policy.makeRoom_suffix history).sublist.trans
        (hhistory.sublist.trans (List.sublist_append_left samples [arrived])))
  · obtain ⟨hpositive, _, hinstant⟩ := horizon?_eq_some hhorizon
    obtain rfl := List.mem_singleton.mp hnew
    have hle : arrived.timestamp.instant ≤ sample.timestamp.instant := by
      rcases List.mem_append.mp harrived with hearlier | hlast
      · exact (List.pairwise_append.mp hordered).2.2 arrived hearlier sample (by simp)
      · exact List.mem_singleton.mp hlast ▸ Int.le_refl _
    omega

/-- One more sample shortens a history no more than the bounds of all samples require. -/
theorem longest_push (hordered : Chronological (samples ++ [latest]))
    (hcount : 0 < policy.depth → history.length ≤ policy.depth)
    (h : IsLongestTail (fun kept => ∀ arrived ∈ samples, policy.Allows arrived.timestamp kept)
      samples history) :
    IsLongestTail
      (fun kept => ∀ arrived ∈ samples ++ [latest], policy.Allows arrived.timestamp kept)
      (samples ++ [latest]) (policy.push history latest) := by
  obtain ⟨hhistory, hallows, hlongest⟩ := h
  refine ⟨(policy.push_suffix history latest).trans (List.suffix_append_self_iff.mpr hhistory),
    allows_push hordered hhistory hcount hallows, fun other hother hbounds => ?_⟩
  rcases List.suffix_concat_iff.mp hother with rfl | ⟨tail, rfl, htail⟩
  · exact List.nil_suffix
  have hlast := hbounds latest (by simp)
  refine List.suffix_append_self_iff.mpr (suffix_dropBefore (suffix_makeRoom ?_ ?_) ?_)
  · refine hlongest tail htail fun arrived harrived => ?_
    obtain ⟨hlength, hage⟩ := hbounds arrived (by simp [harrived])
    refine ⟨fun hdepth => ?_, fun horizon hhorizon sample hsample => ?_⟩
    · have hshorter := hlength hdepth
      rw [List.length_append, List.length_singleton] at hshorter
      omega
    · exact hage horizon hhorizon sample (by simp [hsample])
  · intro hdepth
    have hlength := hlast.count hdepth
    rw [List.length_append, List.length_singleton] at hlength
    omega
  · exact fun horizon hhorizon sample hsample =>
      hlast.age horizon hhorizon sample (by simp [hsample])

/-- The history of samples in the order of their times is the longest tail that is within the
bounds of each of them. -/
theorem longest_historyOf (policy : Retention) (hordered : Chronological samples) :
    IsLongestTail (fun kept => ∀ arrived ∈ samples, policy.Allows arrived.timestamp kept)
      samples (policy.historyOf samples) := by
  induction samples using List.reverseRecOn with
  | nil => exact ⟨List.suffix_refl [], by simp, fun other hother _ => hother⟩
  | append_singleton samples latest ih =>
    rw [historyOf_concat]
    exact longest_push hordered (fun hdepth => length_historyOf_le hdepth samples)
      (ih (hordered.sublist (List.sublist_append_left samples [latest])))

/-- In one offset the bounds of the latest time imply those of all earlier ones. -/
theorem Allows.of_le {earlier later : Timestamp} {kept : List Sample}
    (h : policy.Allows later kept) (hoffset : earlier.offset = later.offset)
    (hle : earlier.instant ≤ later.instant) : policy.Allows earlier kept := by
  refine ⟨h.count, fun horizon hhorizon sample hsample => ?_⟩
  obtain ⟨hpositive, hsub, hinstant⟩ := horizon?_eq_some hhorizon
  obtain ⟨final, hfinal⟩ := Option.isSome_iff_exists.mp
    (Timestamp.isSome_sub?_of_le hoffset hle (Int.le_of_lt hpositive)
      (Option.isSome_of_eq_some hsub))
  have hlater : policy.horizon? later = some final := by
    have hspan : policy.span.IsPositive := hpositive
    rw [horizon?, if_pos hspan, hfinal]
  have hfresh := h.age final hlater sample hsample
  have hfinalInstant := (horizon?_eq_some hlater).2.2
  omega

/-- A history is a tail of the samples that have arrived, with the latest of them, and no longer
than its depth; without bounds it is all of them. When they arrive in the order of their times, it
is the longest tail within the bounds of each of them. In one offset these are the bounds of the
latest sample alone. -/
theorem history_window (policy : Retention) (samples : List Sample) :
    (policy.historyOf samples <:+ samples ∧
      (policy.historyOf samples).getLast? = samples.getLast?) ∧
    (0 < policy.depth → (policy.historyOf samples).length ≤ policy.depth) ∧
    (policy.depth = 0 → ¬ policy.span.IsPositive → policy.historyOf samples = samples) ∧
    (Chronological samples →
      IsLongestTail (fun kept => ∀ arrived ∈ samples, policy.Allows arrived.timestamp kept)
        samples (policy.historyOf samples) ∧
      ∀ latest, samples.getLast? = some latest →
        (∀ sample ∈ samples, sample.timestamp.offset = latest.timestamp.offset) →
        IsLongestTail (policy.Allows latest.timestamp) samples (policy.historyOf samples)) := by
  refine ⟨⟨policy.historyOf_suffix samples, policy.getLast?_historyOf samples⟩,
    fun hdepth => length_historyOf_le hdepth samples,
    fun hdepth hspan => historyOf_of_unbounded hdepth hspan samples,
    fun hordered => ⟨longest_historyOf policy hordered, fun latest hlatest hoffsets => ?_⟩⟩
  obtain ⟨htail, hallows, hlongest⟩ := longest_historyOf policy hordered
  obtain ⟨before, rfl⟩ := List.getLast?_eq_some_iff.mp hlatest
  refine ⟨htail, hallows latest (by simp), fun other hother hbounds => ?_⟩
  refine hlongest other hother fun arrived harrived => ?_
  refine hbounds.of_le (hoffsets arrived harrived) ?_
  rcases List.mem_append.mp harrived with hearlier | hlast
  · exact (List.pairwise_append.mp hordered).2.2 arrived hearlier latest (by simp)
  · exact List.mem_singleton.mp hlast ▸ Int.le_refl _

/-- A sample at a full hour of the first representable day, at a full hour of offset. -/
def onFirstDay (hour : Nat) (offset : Int) (h : -25 ≤ offset ∧ offset ≤ 25) : Sample where
  timestamp := ⟨⟨-9999, 1, by decide, by decide⟩, .ofNanoseconds (hour * 3600000000000),
    ⟨offset, 0, 0, h, UtcOffset.utc.minutes_range, UtcOffset.utc.seconds_range, by omega⟩⟩
  document := .emptyMap

/-- A span of one hour. -/
def oneHour : Span :=
  ⟨3600000000000⟩

/-- The bounds of two policies at work: two samples of three have room, and without bounds all
of them. -/
theorem history_window_firstDay :
    let samples := [onFirstDay 0 0 (by decide), onFirstDay 1 0 (by decide),
      onFirstDay 2 0 (by decide)]
    let latest := onFirstDay 2 0 (by decide)
    ((⟨2, oneHour⟩ : Retention).historyOf samples).length ≤ 2 ∧
    (⟨0, .zero⟩ : Retention).historyOf samples = samples ∧
    IsLongestTail ((⟨2, oneHour⟩ : Retention).Allows latest.timestamp) samples
      ((⟨2, oneHour⟩ : Retention).historyOf samples) := by
  intro samples latest
  obtain ⟨_, hcount, _, hordered⟩ := history_window ⟨2, oneHour⟩ samples
  obtain ⟨_, _, hunbounded, _⟩ := history_window ⟨0, .zero⟩ samples
  exact ⟨hcount (by decide), hunbounded rfl (by decide),
    (hordered (by decide)).2 latest rfl (by simp [samples, latest, onFirstDay])⟩

/-- The third of these samples has no horizon in its offset, but the second one has, and has made
the first one go. The second one itself stays, although it lies further back than the span. -/
theorem latest_bounds_alone_would_keep :
    ∃ (policy : Retention) (samples : List Sample) (latest : Sample),
      Chronological samples ∧ samples.getLast? = some latest ∧
      ¬ IsLongestTail (policy.Allows latest.timestamp) samples (policy.historyOf samples) ∧
      ¬ ∀ kept ∈ policy.historyOf samples,
        latest.timestamp.instant - policy.span.nanoseconds ≤ kept.timestamp.instant := by
  let policy : Retention := ⟨0, oneHour⟩
  let latest := onFirstDay 0 (-3) (by decide)
  let samples := [onFirstDay 0 1 (by decide), onFirstDay 1 0 (by decide), latest]
  refine ⟨policy, samples, latest, by decide, rfl, ?_, ?_⟩
  · rintro ⟨_, _, hlongest⟩
    have hnone : policy.horizon? latest.timestamp = none := by decide
    have hall := hlongest samples (List.suffix_refl _) ⟨by simp [policy], by simp [hnone]⟩
    have hlength : (policy.historyOf samples).length = 2 := by decide
    have hle := hall.length_le
    rw [hlength] at hle
    exact absurd hle (by decide)
  · intro hwithin
    have htimes : (onFirstDay 1 0 (by decide)).timestamp ∈
        (policy.historyOf samples).map Sample.timestamp := by decide
    obtain ⟨kept, hkept, htime⟩ := List.mem_map.mp htimes
    have hbound := hwithin kept hkept
    rw [htime] at hbound
    exact absurd hbound (by decide)

/-! ## Late samples -/

/-- When a sample with a horizon arrives, nothing before the horizon stays in the history exactly
when no sample before it stands behind one that is not. This is so whenever the samples before it
have arrived in the order of their times. -/
theorem age_bound_iff_none_late (policy : Retention) (samples : List Sample) {latest : Sample}
    {horizon : Timestamp} (h : policy.horizon? latest.timestamp = some horizon) :
    ((∀ kept ∈ policy.historyOf (samples ++ [latest]),
        horizon.instant ≤ kept.timestamp.instant) ↔
      (policy.makeRoom (policy.historyOf samples)).Pairwise fun earlier later =>
        horizon.instant ≤ earlier.timestamp.instant →
          horizon.instant ≤ later.timestamp.instant) ∧
    (Chronological samples → ∀ kept ∈ policy.historyOf (samples ++ [latest]),
      horizon.instant ≤ kept.timestamp.instant) := by
  obtain ⟨hpositive, _, hinstant⟩ := horizon?_eq_some h
  have hkept : (∀ kept ∈ policy.historyOf (samples ++ [latest]),
      horizon.instant ≤ kept.timestamp.instant) ↔
      ∀ kept ∈ dropBefore (some horizon) (policy.makeRoom (policy.historyOf samples)),
        horizon.instant ≤ kept.timestamp.instant := by
    rw [historyOf_concat, push, h, List.forall_mem_append, List.forall_mem_singleton]
    exact and_iff_left (by omega)
  refine ⟨hkept.trans fresh_dropBefore_iff, fun hordered => hkept.mpr ?_⟩
  refine fresh_of_chronological (hordered.sublist ?_)
  exact (policy.makeRoom_suffix _).sublist.trans (policy.historyOf_suffix samples).sublist

/-- A sample at some seconds after midnight. -/
def afterMidnight (seconds : Nat) : Sample :=
  ⟨⟨⟨2024, 61, by decide, by decide⟩, .ofNanoseconds (seconds * 1000000000), .utc⟩, .emptyMap⟩

/-- A span of ten seconds. -/
def tenSeconds : Span :=
  ⟨10000000000⟩

/-- In the order of their times the first of three samples is gone when the third one arrives. -/
theorem age_bound_iff_none_late_inOrder :
    let policy : Retention := ⟨0, tenSeconds⟩
    ∃ horizon, policy.horizon? (afterMidnight 105).timestamp = some horizon ∧
      ∀ kept ∈ policy.historyOf ([afterMidnight 50, afterMidnight 100] ++ [afterMidnight 105]),
        horizon.instant ≤ kept.timestamp.instant := by
  intro policy
  obtain ⟨horizon, hhorizon⟩ :=
    Option.isSome_iff_exists.mp
      (show (policy.horizon? (afterMidnight 105).timestamp).isSome by decide)
  exact ⟨horizon, hhorizon,
    (age_bound_iff_none_late policy [afterMidnight 50, afterMidnight 100] hhorizon).2 (by decide)⟩

/-- The second of these samples arrives late. It stands behind the first one, which is within the
span of the third, and so stays although it is not. -/
theorem late_sample_outlives_its_span :
    ∃ (policy : Retention) (samples : List Sample) (latest : Sample) (horizon : Timestamp),
      policy.span.IsPositive ∧ policy.horizon? latest.timestamp = some horizon ∧
      ∃ kept ∈ policy.historyOf (samples ++ [latest]),
        kept.timestamp.instant < horizon.instant := by
  let policy : Retention := ⟨0, tenSeconds⟩
  let samples := [afterMidnight 100, afterMidnight 50]
  obtain ⟨horizon, hhorizon⟩ :=
    Option.isSome_iff_exists.mp
      (show (policy.horizon? (afterMidnight 105).timestamp).isSome by decide)
  have htimes : (afterMidnight 50).timestamp ∈
      (policy.historyOf (samples ++ [afterMidnight 105])).map Sample.timestamp := by decide
  obtain ⟨kept, hkept, htime⟩ := List.mem_map.mp htimes
  refine ⟨policy, samples, afterMidnight 105, horizon, by decide, hhorizon, kept, hkept, ?_⟩
  have hlate : (afterMidnight 50).timestamp.instant <
      (afterMidnight 105).timestamp.instant - policy.span.nanoseconds := by decide
  rwa [htime, (horizon?_eq_some hhorizon).2.2]

end Retention

end ContainerFeed
