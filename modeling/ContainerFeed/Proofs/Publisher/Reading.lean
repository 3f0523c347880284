import ContainerFeed.Json.Writer
import ContainerFeed.Proofs.Publisher.Lifecycle
import ContainerFeed.Proofs.Store.Reading

/-!
# Reads of a publisher's store

What a publisher has stored comes from the batches it has decoded, each taken in with the template
and the settings it met. Whether all reads of the store agree is told from these deliveries.
-/

namespace ContainerFeed

namespace Publisher

variable {publisher : Publisher}

/-- The batch that a call brings to the store, with the template and the settings it meets. -/
def deliveryBy? (publisher : Publisher) : Call → Option Delivery
  | .publish around contentType content options =>
    match publisher.ensureStarted around options, Batch.decode contentType content with
    | .ok (runtime, _), .ok batch => some ⟨runtime.template, runtime.settings, batch⟩
    | _, _ => none
  | _ => none

/-- The batches that some calls bring to the store, one after another. -/
def deliveries (publisher : Publisher) (calls : List Call) : List Delivery :=
  publisher.notes deliveryBy? calls

/-- The batches of some calls are that of the first one and those after it. -/
theorem deliveries_cons (call : Call) (rest : List Call) :
    publisher.deliveries (call :: rest) =
      (publisher.deliveryBy? call).toList ++ (publisher.perform call).2.deliveries rest :=
  rfl

/-- A setup leaves the store alone, and the publisher then runs on it. -/
theorem ensureStarted_eq_ok {around : Surroundings} {options : Options} {runtime : Runtime}
    {started : Publisher} (h : publisher.ensureStarted around options = .ok (runtime, started)) :
    started.store = publisher.store ∧ started.runtime = some runtime := by
  cases hruntime : publisher.runtime with
  | some known =>
    rw [ensureStarted_of_runtime hruntime] at h
    obtain ⟨rfl, rfl⟩ := Prod.mk.inj (Except.ok.inj h)
    exact ⟨rfl, hruntime⟩
  | none =>
    rw [ensureStarted_of_none hruntime, Outcome.map_eq_ok_iff] at h
    obtain ⟨prepared, _, hsetUp⟩ := h
    obtain ⟨rfl, rfl⟩ := Prod.mk.inj hsetUp
    exact ⟨rfl, rfl⟩

/-- A call changes the store by the delivery that it brings, if it brings one. -/
theorem store_perform (publisher : Publisher) (call : Call) :
    (publisher.perform call).2.store =
      publisher.store.receiveAll (publisher.deliveryBy? call).toList := by
  cases call with
  | start around options =>
    simp only [perform, start, deliveryBy?]
    cases hstarted : publisher.ensureStarted around options with
    | error fault => rfl
    | ok outcome => exact (ensureStarted_eq_ok hstarted).1
  | publish around contentType content options =>
    simp only [perform, publish, deliveryBy?]
    cases hstarted : publisher.ensureStarted around options with
    | error fault => rfl
    | ok outcome =>
      have hstore := (ensureStarted_eq_ok hstarted).1
      cases Batch.decode contentType content with
      | error fault => exact hstore
      | ok batch =>
        simp only [takeIn, hstore]
        rfl
  | reload around source =>
    simp only [perform, reload, deliveryBy?]
    cases publisher.runtime with
    | none => rfl
    | some runtime =>
      cases source.compile around.fileText <;> rfl

/-- Some calls change the store by the deliveries that they bring. -/
theorem store_run (publisher : Publisher) (calls : List Call) :
    (publisher.run calls).store = publisher.store.receiveAll (publisher.deliveries calls) := by
  induction calls generalizing publisher with
  | nil => rfl
  | cons call rest ih =>
    rw [run_cons, ih, store_perform, deliveries_cons]
    simp only [Store.receiveAll, List.foldl_append]

/-- A delivery meets the template that the publisher has after the call. -/
theorem runtime_of_deliveryBy? {call : Call} {delivery : Delivery}
    (h : publisher.deliveryBy? call = some delivery) :
    ∃ runtime, (publisher.perform call).2.runtime = some runtime ∧
      delivery.template = runtime.template := by
  cases call with
  | start => simp [deliveryBy?] at h
  | reload => simp [deliveryBy?] at h
  | publish around contentType content options =>
    simp only [deliveryBy?] at h
    simp only [perform, publish]
    cases hstarted : publisher.ensureStarted around options with
    | error fault => simp [hstarted] at h
    | ok outcome =>
      cases hdecode : Batch.decode contentType content with
      | error fault => simp [hstarted, hdecode] at h
      | ok batch =>
        obtain ⟨runtime, started⟩ := outcome
        obtain ⟨_, hruntime⟩ := ensureStarted_eq_ok hstarted
        simp only [hstarted, hdecode, Option.some.injEq] at h
        rw [← h]
        exact ⟨runtime, hruntime, rfl⟩

/-- Every delivery to a publisher that is set up meets the template of its text, or of a text
brought in later. -/
theorem RunsOn.exists_text {options : Options} {text : String}
    (h : publisher.RunsOn options text) {calls : List Call} {delivery : Delivery}
    (hdelivery : delivery ∈ publisher.deliveries calls) :
    ∃ latest ∈ text :: publisher.texts calls,
      Template.compile latest = .ok delivery.template := by
  induction calls generalizing publisher text with
  | nil => simp [deliveries, notes] at hdelivery
  | cons call rest ih =>
    have hnext := h.perform call
    -- The later calls start from the text in force after this one, which is among all texts.
    have hmem {latest : String}
        (hlatest : latest ∈ (publisher.textBy? call).getD text ::
          (publisher.perform call).2.texts rest) :
        latest ∈ text :: publisher.texts (call :: rest) := by
      rw [texts_cons]
      cases htext : publisher.textBy? call with
      | none => simpa [htext] using hlatest
      | some brought =>
        rw [htext, Option.getD_some] at hlatest
        exact List.mem_cons_of_mem text hlatest
    rw [deliveries_cons, List.mem_append, Option.mem_toList] at hdelivery
    rcases hdelivery with hfirst | hrest
    · obtain ⟨runtime, hruntime, htemplate⟩ := runtime_of_deliveryBy? hfirst
      obtain ⟨template, hnow, hcompile⟩ := hnext.template
      obtain rfl := Option.some.inj (hruntime.symm.trans hnow)
      exact ⟨_, hmem List.mem_cons_self, by rw [htemplate, hcompile]⟩
    · obtain ⟨latest, hlatest, hcompile⟩ := ih hnext hrest
      exact ⟨latest, hmem hlatest, hcompile⟩

/-- Every delivery to a new publisher meets the template of a text that has been brought in. -/
theorem exists_text_of_mem_deliveries {calls : List Call} {delivery : Delivery}
    (h : delivery ∈ new.deliveries calls) :
    ∃ text ∈ new.texts calls, Template.compile text = .ok delivery.template := by
  induction calls with
  | nil => simp [deliveries, notes] at h
  | cons call rest ih =>
    rw [deliveries_cons, List.mem_append, Option.mem_toList] at h
    rw [texts_cons]
    rcases perform_new call with ⟨hsame, _, htext⟩ | ⟨options, text, hruns, _, htext⟩
    · have hnone : new.deliveryBy? call ≠ some delivery := by
        intro hsome
        obtain ⟨runtime, hruntime, _⟩ := runtime_of_deliveryBy? hsome
        rw [hsame] at hruntime
        cases hruntime
      rw [hsame] at h ⊢
      rw [htext]
      exact ih (h.resolve_left hnone)
    · rw [htext, Option.toList_some, List.singleton_append]
      rcases h with hfirst | hrest
      · obtain ⟨runtime, hruntime, htemplate⟩ := runtime_of_deliveryBy? hfirst
        obtain ⟨template, hnow, hcompile⟩ := hruns.template
        obtain rfl := Option.some.inj (hruntime.symm.trans hnow)
        exact ⟨text, List.mem_cons_self, by rw [htemplate, hcompile]⟩
      · exact hruns.exists_text hrest

/-- All reads of a publisher's store agree exactly as long as no delivery has discovered a container
and gone over its whole document. There is no such delivery when no template text brought in is
itself a spec. -/
theorem reads_agree_iff_unspoiled (calls : List Call) :
    ((new.run calls).store.ReadsAgree ↔
      ∀ earlier delivery later, new.deliveries calls = earlier ++ delivery :: later →
        ¬ (Store.empty.receiveAll earlier).SpoiledBy delivery) ∧
    ((∀ text ∈ new.texts calls, Template.IsNoSpec text) →
      (new.run calls).store.ReadsAgree) := by
  have hasc : Keyed.Ascending Store.empty.containers := Keyed.ascending_nil
  have hiff : (new.run calls).store.ReadsAgree ↔
      ∀ earlier delivery later, new.deliveries calls = earlier ++ delivery :: later →
        ¬ (Store.empty.receiveAll earlier).SpoiledBy delivery := by
    have hstore : (new.run calls).store = Store.empty.receiveAll (new.deliveries calls) :=
      store_run new calls
    rw [hstore, Store.readsAgree_iff_servable (Store.ascending_receiveAll hasc _),
      Store.servable_receiveAll_iff hasc]
    exact and_iff_right Store.servable_empty
  refine ⟨hiff, ?_⟩
  intro hplain
  apply hiff.mpr
  intro earlier delivery later hsplit
  have hmem : delivery ∈ new.deliveries calls := by simp [hsplit]
  obtain ⟨text, htext, hcompile⟩ := exists_text_of_mem_deliveries hmem
  exact Store.not_spoiledBy_of_keepsRoot _
    (Template.keepsRoot_of_compile (hplain text htext) hcompile)

/-- A template that is itself a spec, without a default. -/
def rootSpec : Node :=
  .map [
    (Template.Spec.marker, .leaf (.bool true)),
    ("src", .text "/cpu"),
    ("stats", .list [.map [
      ("network", .map [("interfaces", .list [.map [("name", .text "")]])]),
      ("timestamp", .text "")]])]

/-- A batch of one container, which is published with the text of that template in a file. -/
def spoilingBatch : Call :=
  .publish ⟨fun _ => some rootSpec.render, fun _ => none⟩ Batch.contentType
    (Batch.encode [⟨Testkit.containerNamespace "web" "cpu", .uint 7, .newYear2020⟩])
    [(Settings.templateName, .text "/template.json")]

/-- The batch is published, and after it no snapshot succeeds. -/
theorem rootSpec_spoils_snapshots :
    ((new.outcomes [spoilingBatch]).map Except.isOk = [true] ∧
      (new.run [spoilingBatch]).store.keys = ["/web"] ∧
      ((new.run [spoilingBatch]).store.snapshot.map fun _ => ()) = .error (.notAContainer "/")) ∧
    ¬ (new.run [spoilingBatch]).store.ReadsAgree := by
  have hrun : (new.outcomes [spoilingBatch]).map Except.isOk = [true] ∧
      (new.run [spoilingBatch]).store.keys = ["/web"] ∧
      ((new.run [spoilingBatch]).store.snapshot.map fun _ => ()) =
        .error (.notAContainer "/") := by
    decide +kernel
  refine ⟨hrun, ?_⟩
  rintro ⟨documents, hsnapshot, _⟩
  have hfails := hrun.2.2
  rw [hsnapshot] at hfails
  cases hfails

end Publisher

end ContainerFeed
