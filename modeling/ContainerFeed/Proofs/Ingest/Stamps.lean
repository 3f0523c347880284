import ContainerFeed.Proofs.Ingest.Interfaces
import ContainerFeed.Proofs.Time.Stamps

/-!
# The stamps of samples

A sample in progress is given the stamp of its time before anything is written to it. No write
reaches below the stamp, because there is no room in a text. So only a spec for the stamp itself or
for the whole sample could replace it, and without one every stored sample shows the stamp of its
own time.
-/

namespace ContainerFeed

-- The steps of a path are only ever compared, never computed, in this file.
attribute [local irreducible] Path.segments

namespace Node

section

variable {document old new : Node} {step : String} {value : Scalar} {p : List String}

/-- A leaf below the root of a document parts from every other place that can be written, unless
that is the root itself. -/
theorem apart_of_leaf (hstep : Text.readIndex? step = none)
    (hleaf : document.child? step = some (.leaf value)) (haccepts : document.Accepts p)
    (hroot : p ≠ []) (hne : p ≠ [step]) : document.Apart p [step] := by
  obtain ⟨fields, rfl⟩ := exists_fields_of_child? hstep hleaf
  cases p with
  | nil => exact absurd rfl hroot
  | cons s rest =>
    rintro rfl
    cases rest with
    | nil => exact absurd rfl hne
    | cons t rest => exact (haccepts.below hleaf).1.elim

/-- A write leaves every leaf below the root alone that it neither replaces nor removes with the
whole document. -/
theorem child?_of_set {path : String} {written : Node} (hstep : Text.readIndex? step = none)
    (hleaf : old.child? step = some (.leaf value)) (h : old.set path written = .ok new)
    (hroot : Path.segments path ≠ []) (hne : Path.segments path ≠ [step]) :
    new.child? step = some (.leaf value) := by
  have hapart := apart_of_leaf hstep hleaf (exists_set_iff.mp ⟨new, h⟩) hroot hne
  have hsame := (editedAt_of_set h hroot).1.follow?_eq hapart
  rw [follow?_singleton, follow?_singleton] at hsame
  exact hsame.trans hleaf

end

end Node

/-- No spec of the sample addresses its stamp or the sample as a whole. -/
def Template.KeepsStamp (template : Template) : Prop :=
  ∀ spec ∈ template.sample.mapping.specs, Path.segments spec.target ≠ [] ∧
    Path.segments spec.target ≠ Path.segments Round.timestampPath

instance (template : Template) : Decidable template.KeepsStamp :=
  inferInstanceAs (Decidable (∀ spec ∈ template.sample.mapping.specs, _ ∧ _))

/-- A document shows a stamp in its place. -/
def Node.ShowsStamp (document : Node) (stamp : String) : Prop :=
  document.seek Round.timestampPath = .ok (.text stamp)

/-- A document shows a stamp in the field for it. -/
theorem Node.showsStamp_iff {document : Node} {stamp : String} :
    document.ShowsStamp stamp ↔ document.child? "timestamp" = some (.text stamp) := by
  rw [ShowsStamp, seek_eq_ok_iff, Template.segments_timestampPath, follow?_singleton]

/-! ## The stamp of a round -/

section

variable {template : Template} {stamp : String} {old new : Node}

/-- A write elsewhere leaves the stamp alone. -/
theorem Node.ShowsStamp.set (hold : old.ShowsStamp stamp) {path : String} {written : Node}
    (h : old.set path written = .ok new) (hroot : Path.segments path ≠ [])
    (hne : Path.segments path ≠ Path.segments Round.timestampPath) : new.ShowsStamp stamp := by
  rw [Template.segments_timestampPath] at hne
  exact showsStamp_iff.mpr
    (child?_of_set (by decide +kernel) (showsStamp_iff.mp hold) h hroot hne)

/-- A measurement leaves the stamp alone where no spec addresses it. -/
theorem Node.ShowsStamp.fill (hold : old.ShowsStamp stamp) (hkeeps : template.KeepsStamp)
    {m : Measurement} (h : template.sample.fill old m = .ok new) : new.ShowsStamp stamp := by
  unfold Template.Region.fill at h
  cases hspecs : template.sample.mapping.resolve? m.ns.display with
  | none =>
    simp only [hspecs, Except.ok.injEq] at h
    exact h ▸ hold
  | some specs =>
    simp only [hspecs] at h
    refine Outcome.foldlM_preserves (P := fun document => document.ShowsStamp stamp)
      (fun document next spec hspec hdocument hset => ?_) hold h
    obtain ⟨hroot, hne⟩ := hkeeps spec (Template.Table.mem_specs_of_resolve? hspecs hspec)
    exact hdocument.set hset hroot hne

/-- A finished round shows the stamp that it has started with. -/
theorem Round.showsStamp (hkeeps : template.KeepsStamp) {ref : ContainerRef}
    {tracked : Option Container} {timestamp : Timestamp} {started last : Round}
    {ms : List Measurement} {interfaces : Node}
    (hstart : Round.startAt template ref tracked timestamp stamp = .ok started)
    (hwrites : ms.foldlM (fun round m => round.write template m) started = .ok last)
    (hset : last.document.set Template.interfacesPath interfaces = .ok new) :
    last.timestamp = timestamp ∧ new.ShowsStamp stamp := by
  obtain ⟨document, container, hstamp, _, rfl⟩ := Round.startAt_eq_ok_iff.mp hstart
  obtain ⟨_, htime, _⟩ := Round.container_of_writes hwrites
  have hfirst : document.ShowsStamp stamp := Node.seek_eq_ok_iff.mpr (Node.follow?_of_set hstamp)
  have hlast : last.document.ShowsStamp stamp :=
    Outcome.foldlM_preserves (P := fun document => document.ShowsStamp stamp)
      (fun _ _ _ _ hold hfill => hold.fill hkeeps hfill) hfirst (Round.fills_of_writes hwrites)
  refine ⟨htime, hlast.set hset ?_ ?_⟩
  · rw [Template.segments_interfacesPath]
    exact List.cons_ne_nil _ _
  · rw [Template.segments_interfacesPath, Template.segments_timestampPath]
    decide

end

/-! ## The stamps of stored samples -/

/-- A sample shows the stamp of its own time. -/
def Sample.Stamped (sample : Sample) : Prop :=
  ∃ stamp, sample.timestamp.stamp? = some stamp ∧ sample.document.ShowsStamp stamp

namespace Store

variable {store : Store} {delivery : Delivery}

/-- All samples show the stamps of their own times. -/
def Stamped (store : Store) : Prop :=
  ∀ key tracked, store.get? key = some tracked → ∀ sample ∈ tracked.history, sample.Stamped

/-- A delivery keeps the stamps of all samples, and its own sample has one. -/
theorem stamped_receive (h : store.Stamped) (hkeeps : delivery.template.KeepsStamp) :
    (store.receive delivery).Stamped := by
  refine samples_receive h fun report key hreport hkept => ?_
  obtain ⟨ref, timestamp, stamp, started, last, tracked, document, hstamp, hstart, hwrites, hset,
    hget, hhistory⟩ := sample_of_change hreport hkept
  obtain ⟨htime, hshows⟩ := Round.showsStamp hkeeps hstart hwrites hset
  exact ⟨tracked, _, hget, hhistory, stamp, by rw [htime, hstamp], hshows⟩

/-- A run of deliveries keeps the stamps of all samples. -/
theorem stamped_receiveAll (h : store.Stamped) {deliveries : List Delivery}
    (hkeeps : ∀ delivery ∈ deliveries, delivery.template.KeepsStamp) :
    (store.receiveAll deliveries).Stamped := by
  induction deliveries generalizing store with
  | nil => exact h
  | cons delivery rest ih =>
    obtain ⟨hfirst, hrest⟩ := List.forall_mem_cons.mp hkeeps
    exact ih (stamped_receive h hfirst) hrest

/-- An empty store has no sample without a stamp. -/
theorem stamped_empty : empty.Stamped := by
  intro key tracked hget
  simp at hget

/-- The stamps of sample times from the year 0 on have twenty octets, end with a `Z`, are different
for different times, and compare octet by octet like these times. After any run of deliveries with
templates that keep the stamp, every sample shows the stamp of its own time. -/
theorem stamps_order_like_time :
    (∀ (measured measured' : Timestamp) (delta delta' : Span) (t t' : Timestamp),
      measured.sampleTime? delta = some t → measured'.sampleTime? delta' = some t' →
      0 ≤ t.date.year → 0 ≤ t'.date.year →
      ∃ stamp stamp', t.stamp? = some stamp ∧ t'.stamp? = some stamp' ∧
        (Text.toOctets stamp).length = 20 ∧ stamp.toList.getLast? = some 'Z' ∧
        (stamp = stamp' ↔ t = t') ∧
        (Text.toOctets stamp < Text.toOctets stamp' ↔ t.count < t'.count)) ∧
    ∀ deliveries : List Delivery, (∀ delivery ∈ deliveries, delivery.template.KeepsStamp) →
      (empty.receiveAll deliveries).Stamped := by
  refine ⟨fun measured measured' delta delta' t t' ht ht' hyear hyear' => ?_,
    fun deliveries hkeeps => stamped_receiveAll stamped_empty hkeeps⟩
  have hseconds : t.InSeconds := Timestamp.inSeconds_of_sampleTime? ht
  have hseconds' : t'.InSeconds := Timestamp.inSeconds_of_sampleTime? ht'
  have hstamp := Timestamp.stamp?_eq_some_iff.mpr ⟨hyear, rfl⟩
  have hstamp' := Timestamp.stamp?_eq_some_iff.mpr ⟨hyear', rfl⟩
  exact ⟨_, _, hstamp, hstamp', Timestamp.length_toOctets_stamp hstamp,
    Timestamp.getLast?_stamp hstamp, Timestamp.stamp_eq_iff hseconds hseconds' hstamp hstamp',
    Timestamp.toOctets_stamp_lt_iff hseconds hseconds' hstamp hstamp'⟩

/-- The last tenth of a second of a leap day, in universal time. -/
def leapDay : Timestamp :=
  ⟨⟨2000, 60, by decide, by decide⟩, .ofNanoseconds 86399900000000, .utc⟩

/-- The beginning of the day after it, as clocks an hour to the east show it. -/
def dayAfter : Timestamp :=
  ⟨⟨2000, 61, by decide, by decide⟩, .ofNanoseconds 3600000000000,
    (UtcOffset.make? 1 0 0).getD .utc⟩

/-- A template with a spec of the sample beside its stamp. -/
def besideStamp : Node :=
  .map [("stats", .list [.map [("cpu", .text "__tmpl:src=/cpu"),
    ("network", .map [("interfaces", .list [.map []])])]])]

/-- Two loads of one container, the first of them on the leap day. -/
def leapLoads (template : Template) : Delivery where
  template := template
  settings := ⟨8777, 10, .zero, .builtin, .zero, "/docker"⟩
  batch := [⟨⟨["docker", "web", "cpu"]⟩, .int 1, leapDay⟩,
    ⟨⟨["docker", "web", "cpu"]⟩, .int 2, dayAfter⟩]

/-- The stamps of both times, and the sample of the first one. -/
theorem stamps_order_like_time_leapDay :
    ∃ t t' template tracked sample,
      leapDay.sampleTime? .zero = some t ∧ dayAfter.sampleTime? .zero = some t' ∧
      0 ≤ t.date.year ∧ 0 ≤ t'.date.year ∧
      t.stamp? = some "2000-02-29T23:59:59Z" ∧ t'.stamp? = some "2000-03-01T00:00:00Z" ∧
      t.count < t'.count ∧ Template.compile besideStamp.render = .ok template ∧
      template.sample.mapping.specs ≠ [] ∧ template.KeepsStamp ∧
      (empty.receiveAll [leapLoads template]).get? "/web" = some tracked ∧
      sample ∈ tracked.history ∧ sample.Stamped := by
  have htimes : (leapDay.sampleTime? .zero).any fun t => (dayAfter.sampleTime? .zero).any fun t' =>
      decide (0 ≤ t.date.year ∧ 0 ≤ t'.date.year ∧ t.stamp? = some "2000-02-29T23:59:59Z" ∧
        t'.stamp? = some "2000-03-01T00:00:00Z") := by
    decide +kernel
  have hchecked : (Template.compile besideStamp.render).toOption.any fun (template : Template) =>
      ((empty.receiveAll [leapLoads template]).get? "/web").any fun tracked =>
      decide (template.sample.mapping.specs ≠ [] ∧ template.KeepsStamp ∧
        tracked.history.length = 1) := by
    decide +kernel
  obtain ⟨t, ht, htimes⟩ := (Option.any_eq_true _ _).mp htimes
  obtain ⟨t', ht', htimes⟩ := (Option.any_eq_true _ _).mp htimes
  obtain ⟨hyear, hyear', hstamp, hstamp'⟩ := of_decide_eq_true htimes
  obtain ⟨template, hcompiled, hchecked⟩ := (Option.any_eq_true _ _).mp hchecked
  obtain ⟨tracked, hget, hchecked⟩ := (Option.any_eq_true _ _).mp hchecked
  obtain ⟨hspecs, hkeeps, hlength⟩ := of_decide_eq_true hchecked
  obtain ⟨sample, hsample⟩ := List.exists_mem_of_length_pos (l := tracked.history) (by omega)
  obtain ⟨horder, hstamped⟩ := stamps_order_like_time
  obtain ⟨first, second, hfirst, hsecond, _, _, _, hlt⟩ :=
    horder leapDay dayAfter .zero .zero t t' ht ht' hyear hyear'
  obtain rfl := Option.some.inj (hfirst.symm.trans hstamp)
  obtain rfl := Option.some.inj (hsecond.symm.trans hstamp')
  refine ⟨t, t', template, tracked, sample, ht, ht', hyear, hyear', hstamp, hstamp',
    hlt.mp (by decide +kernel), Outcome.toOption_eq_some_iff.mp hcompiled, hspecs, hkeeps, hget,
    hsample, hstamped _ ?_ "/web" tracked hget sample hsample⟩
  rintro delivery hdelivery
  obtain rfl := List.mem_singleton.mp hdelivery
  exact hkeeps

end Store

end ContainerFeed
