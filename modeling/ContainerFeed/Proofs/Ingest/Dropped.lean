import ContainerFeed.Proofs.Ingest.WriteOnce
import Mathlib.Data.Finset.Card

/-!
# Dropped measurements

Some measurements of a batch come to nothing: those that are sent to no container, and those that
cannot open a sample and arrive before their container has one in progress. Whether a measurement
is dropped depends on what has come before it, but leaving dropped measurements out changes nothing
for the other ones. Only the numbers of measurements received tell that they have been there.
-/

namespace ContainerFeed

/-! ## Leaving items out -/

/-- A list without the items at some positions, where the first item has position `start`. -/
def leaveOut {α : Type} (positions : Finset Nat) (start : Nat) (items : List α) : List α :=
  ((items.zipIdx start).filter fun item => item.2 ∉ positions).map Prod.fst

section

variable {α β ε : Type} {positions : Finset Nat} {start : Nat}

/-- The first item is left out when its position is among those given. -/
theorem leaveOut_cons (item : α) (rest : List α) :
    leaveOut positions start (item :: rest) =
      if start ∈ positions then leaveOut positions (start + 1) rest
      else item :: leaveOut positions (start + 1) rest := by
  by_cases hout : start ∈ positions <;> simp [leaveOut, hout]

/-- What is left and what is left out make up the whole list. -/
theorem length_leaveOut_add {items : List α} (h : ∀ i ∈ positions, i < items.length) :
    (leaveOut positions 0 items).length + positions.card = items.length := by
  have hout : (List.range items.length).countP (fun i => decide (i ∈ positions)) =
      positions.card := by
    rw [List.countP_eq_length_filter,
      ← List.toFinset_card_of_nodup (List.nodup_range.filter _)]
    congr 1
    ext i
    simp only [List.mem_toFinset, List.mem_filter, List.mem_range, decide_eq_true_eq]
    exact ⟨And.right, fun hi => ⟨h i hi, hi⟩⟩
  have hleft : (leaveOut positions 0 items).length =
      (List.range items.length).countP (fun i => decide (i ∉ positions)) := by
    have hrange : List.range items.length = items.zipIdx.map Prod.snd := by
      rw [List.zipIdx_map_snd, List.range_eq_range']
    rw [leaveOut, List.length_map, ← List.countP_eq_length_filter, hrange, List.countP_map]
    rfl
  have hsplit := List.length_eq_countP_add_countP (fun i => decide (i ∈ positions))
    (l := List.range items.length)
  simp only [List.length_range, Bool.not_eq_true, decide_eq_false_iff_not] at hsplit
  rw [hleft, ← hout, Nat.add_comm]
  exact hsplit.symm

/-- Steps that leave the state as they find it can be left out. -/
theorem foldlM_leaveOut {f : β → α → Except ε β} {steps : List α} {b c : β}
    (hidle : ∀ i a mid next, start + i ∈ positions → steps[i]? = some a →
      (steps.take i).foldlM f b = .ok mid → f mid a = .ok next → next = mid)
    (h : steps.foldlM f b = .ok c) : (leaveOut positions start steps).foldlM f b = .ok c := by
  induction steps generalizing start b with
  | nil => exact h
  | cons a rest ih =>
    obtain ⟨next, hnext, hrest⟩ := Outcome.foldlM_cons_eq_ok_iff.mp h
    have hlater : (leaveOut positions (start + 1) rest).foldlM f next = .ok c := by
      refine ih (fun i a' mid final hout ha hmid hstep => ?_) hrest
      refine hidle (i + 1) a' mid final (by rwa [Nat.add_right_comm] at hout) ha ?_ hstep
      exact Outcome.foldlM_cons_eq_ok_iff.mpr ⟨next, hnext, hmid⟩
    rw [leaveOut_cons]
    by_cases hout : start ∈ positions
    · rw [if_pos hout]
      obtain rfl : next = b := hidle 0 a b next hout rfl rfl hnext
      exact hlater
    · rw [if_neg hout]
      exact Outcome.foldlM_cons_eq_ok_iff.mpr ⟨next, hnext, hlater⟩

end

/-! ## Dropped measurements of a delivery -/

namespace Delivery

/-- After some measurements of the batch, the container with this key has a sample in progress. -/
def hasSample (delivery : Delivery) (store : Store) (earlier : List Measurement) (key : String) :
    Bool :=
  (store.roundsOf delivery.template delivery.settings earlier).toOption.any (Keyed.contains key)

/-- The measurement at a position of the batch is dropped: it is sent to no container, or it cannot
open a sample and its container has none in progress. -/
def Drops (delivery : Delivery) (store : Store) (i : Nat) : Prop :=
  ∃ m ∈ delivery.batch[i]?, ∀ ref ∈ delivery.settings.destination? m,
    delivery.settings.opens m = false ∧
      delivery.hasSample store (delivery.batch.take i) ref.key = false

instance (delivery : Delivery) (store : Store) (i : Nat) : Decidable (delivery.Drops store i) :=
  inferInstanceAs (Decidable (∃ m ∈ delivery.batch[i]?, ∀ ref ∈ delivery.settings.destination? m,
    delivery.settings.opens m = false ∧
      delivery.hasSample store (delivery.batch.take i) ref.key = false))

/-- All measurements of the batch that are sent to the container with this key are dropped. -/
def DropsAll (delivery : Delivery) (store : Store) (key : String) : Prop :=
  ∀ i < delivery.batch.length, ∀ m ∈ delivery.batch[i]?,
    delivery.settings.sends key m = true → delivery.Drops store i

instance (delivery : Delivery) (store : Store) (key : String) :
    Decidable (delivery.DropsAll store key) :=
  inferInstanceAs (Decidable (∀ i < delivery.batch.length, ∀ m ∈ delivery.batch[i]?,
    delivery.settings.sends key m = true → delivery.Drops store i))

/-- The delivery without the measurements at some positions. -/
def without (delivery : Delivery) (positions : Finset Nat) : Delivery :=
  { delivery with batch := leaveOut positions 0 delivery.batch }

end Delivery

/-- A report with fewer measurements received, and all else the same. -/
def IngestReport.receivingFewer (report : IngestReport) (fewer : Nat) : IngestReport :=
  { report with metricsReceived := report.metricsReceived - fewer }

/-- Counters with fewer measurements in the latest batch and in total, and all else the same. -/
def Counters.receivingFewer (counters : Counters) (fewer : Nat) : Counters :=
  { counters with
    metricsTotal := counters.metricsTotal - .ofNat fewer
    metricsRecently := counters.metricsRecently - .ofNat fewer }

namespace Store

variable {before after : Store} {delivery : Delivery} {report : IngestReport}
  {positions : Finset Nat}

/-- A dropped measurement leaves all rounds alone. -/
theorem share_of_drops {i : Nat} (hdrops : delivery.Drops before i) {m : Measurement}
    (hm : delivery.batch[i]? = some m) {rounds next : List (String × Round)}
    (hrounds : before.roundsOf delivery.template delivery.settings (delivery.batch.take i) =
      .ok rounds)
    (h : before.share delivery.template delivery.settings rounds m = .ok next) :
    next = rounds := by
  obtain ⟨found, hfound, hdropped⟩ := hdrops
  obtain rfl : m = found := Option.some.inj (hm.symm.trans hfound)
  cases hdest : delivery.settings.destination? m with
  | none =>
    rw [share_of_destination_none hdest] at h
    exact (Except.ok.inj h).symm
  | some ref =>
    obtain ⟨hopens, hnone⟩ := hdropped ref hdest
    have hround : Keyed.get? ref.key rounds = none := by
      simpa [Delivery.hasSample, hrounds, Except.toOption, Keyed.contains] using hnone
    have hsends : delivery.settings.sends ref.key m = true :=
      Settings.sends_iff.mpr ⟨ref, hdest, rfl⟩
    obtain ⟨round, hadvance, rfl⟩ := (share_of_destination_some hdest).mp h
    rw [hround] at hadvance
    have hstep : before.roundStep delivery.template delivery.settings none m = .ok round := by
      simpa only [roundStep, hdest] using hadvance
    rcases roundStep_none_eq_ok hsends hstep with ⟨_, rfl⟩ | ⟨hopen, _⟩
    · rfl
    · simp [hopens] at hopen

/-- Without dropped measurements the rounds of a batch are the same. -/
theorem roundsOf_without (hdrops : ∀ i ∈ positions, delivery.Drops before i)
    {rounds : List (String × Round)}
    (h : before.roundsOf delivery.template delivery.settings delivery.batch = .ok rounds) :
    before.roundsOf delivery.template delivery.settings (delivery.without positions).batch =
      .ok rounds := by
  refine foldlM_leaveOut (fun i m mid next hout hm hmid hstep => ?_) h
  rw [Nat.zero_add] at hout
  exact share_of_drops (hdrops i hout) hm hmid hstep

/-- A position that is dropped is one of the batch. -/
theorem lt_length_of_drops {i : Nat} (h : delivery.Drops before i) :
    i < delivery.batch.length := by
  obtain ⟨m, hm, _⟩ := h
  exact (List.getElem?_eq_some_iff.mp hm).1

/-- A shorter batch with the same rounds is counted the same but for its measurements. -/
theorem count_of_length_add {counters : Counters} {batch shorter : List Measurement}
    (rounds : List (String × Round)) {fewer : Nat} (h : shorter.length + fewer = batch.length) :
    count counters shorter rounds = (count counters batch rounds).receivingFewer fewer := by
  simp only [count, Counters.record, Counters.receivingFewer, ← h, UInt64.ofNat_add,
    ← UInt64.add_assoc, UInt64.add_sub_cancel]

/-- Without dropped measurements a delivery is taken in as well, and comes to the same. Only the
numbers of measurements received are lower. -/
theorem change_without (h : delivery.change.on before = (.ok report, after))
    (hdrops : ∀ i ∈ positions, delivery.Drops before i) :
    positions.card ≤ report.metricsReceived ∧
    (delivery.without positions).change.on before =
      (.ok (report.receivingFewer positions.card),
        { after with counters := after.counters.receivingFewer positions.card }) := by
  obtain ⟨rounds, containers, hrounds, hfinish, rfl, rfl⟩ :=
    ingest_eq_ok_iff.mp (on_change_eq_ok_iff.mp h)
  have hlength : (delivery.without positions).batch.length + positions.card =
      delivery.batch.length :=
    length_leaveOut_add fun i hi => lt_length_of_drops (hdrops i hi)
  refine ⟨Nat.le.intro ((Nat.add_comm _ _).trans hlength), on_change_eq_ok_iff.mpr ?_⟩
  refine ingest_eq_ok_iff.mpr
    ⟨rounds, containers, roundsOf_without hdrops hrounds, hfinish, ?_, ?_⟩
  · simp only [reportOf, IngestReport.receivingFewer, ← hlength, Nat.add_sub_cancel]
  · rw [count_of_length_add rounds hlength]

/-- A container that no measurement is kept for in some deliveries stays as it is. -/
theorem get?_receiveAll_of_kept_eq_nil {store : Store} {key : String} {deliveries : List Delivery}
    (h : ∀ delivery ∈ deliveries, delivery.kept key = []) :
    (store.receiveAll deliveries).get? key = store.get? key := by
  induction deliveries generalizing store with
  | nil => rfl
  | cons delivery rest ih =>
    obtain ⟨hfirst, hrest⟩ := List.forall_mem_cons.mp h
    refine (ih hrest).trans ?_
    rcases store.receive_cases delivery with ⟨report, hreport⟩ | hsame
    · exact get?_of_change_of_kept_eq_nil hreport hfirst
    · rw [hsame]

/-- Nothing is kept for a container when all of its measurements are dropped. -/
theorem kept_eq_nil_of_dropsAll {key : String} (h : delivery.DropsAll before key) :
    delivery.kept key = [] := by
  refine List.dropWhile_eq_nil_iff.mpr fun m hm => ?_
  obtain ⟨hmem, hsends⟩ := List.mem_filter.mp hm
  obtain ⟨i, hi⟩ := List.mem_iff_getElem?.mp hmem
  obtain ⟨found, hfound, hdropped⟩ := h i (List.getElem?_eq_some_iff.mp hi).1 m hi hsends
  obtain rfl : m = found := Option.some.inj (hi.symm.trans hfound)
  obtain ⟨ref, hdest, _⟩ := Settings.sends_iff.mp hsends
  simp [(hdropped ref hdest).1]

/-- Any of the dropped measurements of a delivery that is taken in can be left out: the delivery is
still taken in, with the same containers, the same report and the same counters, but for the numbers
of measurements received. A container that has only dropped measurements stays as it is. If it is
not tracked, it is discovered by the first delivery that keeps measurements for it, and its document
is written then. -/
theorem dropped_measurements_leave_no_trace (h : delivery.change.on before = (.ok report, after))
    (hdrops : ∀ i ∈ positions, delivery.Drops before i) :
    positions.card ≤ report.metricsReceived ∧
    (delivery.without positions).change.on before =
      (.ok (report.receivingFewer positions.card),
        { after with counters := after.counters.receivingFewer positions.card }) ∧
    ∀ key, delivery.DropsAll before key → after.get? key = before.get? key ∧
      (before.get? key = none → ∀ idle : List Delivery, (∀ other ∈ idle, other.kept key = []) →
        ∀ (usable : Delivery) (report' : IngestReport) (final : Store),
          usable.change.on (after.receiveAll idle) = (.ok report', final) →
          usable.kept key ≠ [] →
          ∃ found, final.get? key = some found ∧ usable.Discovered key found) := by
  obtain ⟨hcard, hwithout⟩ := change_without h hdrops
  refine ⟨hcard, hwithout, fun key hall => ?_⟩
  have hsame := get?_of_change_of_kept_eq_nil h (kept_eq_nil_of_dropsAll hall)
  refine ⟨hsame, fun hnone idle hidle usable report' final husable hkept => ?_⟩
  have hstill : (after.receiveAll idle).get? key = none :=
    (get?_receiveAll_of_kept_eq_nil hidle).trans (hsame.trans hnone)
  obtain ⟨hpresent, hdiscovered⟩ := discovered_of_change husable hstill
  obtain ⟨found, hfound⟩ := Option.isSome_iff_exists.mp (hpresent.mpr hkept)
  exact ⟨found, hfound, hdiscovered found hfound⟩

/-- A time before the years that stamps are written for. -/
def ancient : Timestamp :=
  ⟨⟨-5, 1, by decide, by decide⟩, .ofNanoseconds 0, .utc⟩

/-- A measurement of no container, the image of a container at an ancient time, and two of another
container, of which the second one is ancient, too. -/
def ancientImages : Delivery :=
  let image (container : String) (time : Timestamp) : Measurement :=
    ⟨Testkit.containerNamespace container "image", .text "first", time⟩
  { imagesIn "image" [] with
    batch := [⟨.parse "/intel/load", .int 5, .newYear2020⟩, image "db" ancient,
      image "web" .newYear2020, image "web" ancient] }

/-- The first two measurements are dropped, the last one is not. Without the dropped ones the other
container has its sample all the same, and the image of the first one is still written when a usable
measurement arrives. -/
theorem dropped_measurements_leave_no_trace_ancient :
    let usable := imagesIn "image" [("db", "second")]
    ∃ report after report' final found,
      ancientImages.change.on empty = (.ok report, after) ∧ report = ⟨4, 2, 1, 1⟩ ∧
      (∀ i ∈ ({0, 1} : Finset Nat), ancientImages.Drops empty i) ∧
      ¬ ancientImages.Drops empty 3 ∧
      (ancientImages.without {0, 1}).change.on empty =
        (.ok ⟨2, 2, 1, 1⟩, { after with counters := after.counters.receivingFewer 2 }) ∧
      ancientImages.DropsAll empty "/db" ∧ after.get? "/db" = none ∧
      usable.change.on after = (.ok report', final) ∧ usable.kept "/db" ≠ [] ∧
      final.get? "/db" = some found ∧ usable.Discovered "/db" found := by
  intro usable
  obtain ⟨hreport, hdrops, hkeeps, hall, hkept⟩ :
      (ancientImages.change.on empty).1.toOption = some ⟨4, 2, 1, 1⟩ ∧
      (∀ i ∈ ({0, 1} : Finset Nat), ancientImages.Drops empty i) ∧
      ¬ ancientImages.Drops empty 3 ∧ ancientImages.DropsAll empty "/db" ∧
      usable.kept "/db" ≠ [] := by decide +kernel
  have husable : (usable.change.on (empty.receive ancientImages)).1.toOption.isSome := by
    decide +kernel
  rcases hchange : ancientImages.change.on empty with ⟨failure | report, after⟩
  · simp [hchange, Except.toOption] at hreport
  obtain rfl : report = ⟨4, 2, 1, 1⟩ := by simpa [hchange, Except.toOption] using hreport
  have hafter : empty.receive ancientImages = after := by rw [receive, hchange]
  rw [hafter] at husable
  rcases hnext : usable.change.on after with ⟨failure | report', final⟩
  · simp [hnext, Except.toOption] at husable
  obtain ⟨_, hwithout, hothers⟩ := dropped_measurements_leave_no_trace hchange hdrops
  obtain ⟨hsame, hlater⟩ := hothers "/db" hall
  obtain ⟨found, hfound, hdiscovered⟩ :=
    hlater rfl [] (by simp) usable report' final hnext hkept
  exact ⟨_, after, report', final, found, rfl, rfl, hdrops, hkeeps, hwithout, hall, hsame, hnext,
    hkept, hfound, hdiscovered⟩

end Store

end ContainerFeed
