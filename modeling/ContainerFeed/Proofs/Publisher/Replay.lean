import ContainerFeed.Proofs.Ingest.InPlace
import ContainerFeed.Proofs.Time.Calendar
import ContainerFeed.Publisher
import ContainerFeed.Testkit.BatchBuilder

/-!
# Failed calls leave no trace

A run of a publisher is a sequence of calls, each with its own surroundings. Once the publisher
is set up, a call that fails changes nothing, so the run comes to the same as the run of its
successful calls alone.
-/

namespace ContainerFeed

/-- A call to a publisher, with what it finds around it and what it is given. -/
inductive Call where
  | start (around : Surroundings) (options : Options)
  | publish (around : Surroundings) (contentType : String) (content : List UInt8)
      (options : Options)
  | reload (around : Surroundings) (source : Template.Source)

/-- What a successful call answers. -/
inductive Answer where
  | settings (settings : Settings)
  | report (report : IngestReport)
  | reloaded

namespace Publisher

/-- Carries out a call. -/
def perform (publisher : Publisher) : Call → Except PublishFault Answer × Publisher
  | .start around options => match publisher.start around options with
    | (outcome, after) => ((outcome.mapError PublishFault.setup).map Answer.settings, after)
  | .publish around contentType content options =>
    match publisher.publish around contentType content options with
    | (outcome, after) => (outcome.map Answer.report, after)
  | .reload around source => match publisher.reload around source with
    | (outcome, after) =>
      ((outcome.mapError PublishFault.setup).map fun _ => Answer.reloaded, after)

/-- The publisher after some calls. -/
def run (publisher : Publisher) (calls : List Call) : Publisher :=
  calls.foldl (fun publisher call => (publisher.perform call).2) publisher

/-- The outcomes of some calls, one after another. -/
def outcomes (publisher : Publisher) : List Call → List (Except PublishFault Answer)
  | [] => []
  | call :: rest => (publisher.perform call).1 :: (publisher.perform call).2.outcomes rest

/-- Those of some calls that succeed when all of them are carried out. -/
def successes (publisher : Publisher) : List Call → List Call
  | [] => []
  | call :: rest =>
    if (publisher.perform call).1.isOk then
      call :: (publisher.perform call).2.successes rest
    else (publisher.perform call).2.successes rest

variable {publisher : Publisher}

/-- A publisher that is set up stays as it is. -/
theorem ensureStarted_of_runtime {runtime : Runtime} (h : publisher.runtime = some runtime)
    (around : Surroundings) (options : Options) :
    publisher.ensureStarted around options = .ok (runtime, publisher) := by
  simp only [ensureStarted, h]

/-- A batch that cannot be taken in leaves the publisher as it was. -/
theorem takeIn_eq_error {runtime : Runtime} {batch : List Measurement} {fault : PublishFault}
    (h : (publisher.takeIn runtime batch).1 = .error fault) :
    (publisher.takeIn runtime batch).2 = publisher := by
  simp only [takeIn, Store.on_ingestInPlace] at h ⊢
  cases hingest : publisher.store.ingest runtime.template runtime.settings batch with
  | error failure => rfl
  | ok outcome => simp [hingest, Except.mapError] at h

/-- A publisher that is set up ignores the options of later calls, and either refuses the content
of a batch or takes the batch in. -/
theorem publish_of_runtime {runtime : Runtime} (h : publisher.runtime = some runtime)
    (around : Surroundings) (contentType : String) (content : List UInt8) (options : Options) :
    publisher.publish around contentType content options =
      match Batch.decode contentType content with
      | .error fault => (.error (.batch fault), publisher)
      | .ok batch => publisher.takeIn runtime batch := by
  cases hdecode : Batch.decode contentType content <;>
    simp only [publish, ensureStarted_of_runtime h, hdecode]

/-- A call that fails leaves a publisher that is set up as it was. -/
theorem perform_eq_error {call : Call} {fault : PublishFault} (hstarted : publisher.isStarted)
    (h : (publisher.perform call).1 = .error fault) : (publisher.perform call).2 = publisher := by
  obtain ⟨runtime, hruntime⟩ := Option.isSome_iff_exists.mp hstarted
  cases call with
  | start around options =>
    simp only [perform, start, ensureStarted_of_runtime hruntime]
  | publish around contentType content options =>
    simp only [perform, publish_of_runtime hruntime, Outcome.map_eq_error_iff] at h ⊢
    cases hdecode : Batch.decode contentType content with
    | error fault => rfl
    | ok batch =>
      simp only [hdecode] at h ⊢
      exact takeIn_eq_error h
  | reload around source =>
    simp only [perform, reload, hruntime] at h ⊢
    cases hcompile : source.compile around.fileText with
    | error fault => rfl
    | ok template => simp [hcompile, Except.mapError, Except.map] at h

/-- No call undoes a setup. -/
theorem isStarted_perform (hstarted : publisher.isStarted) (call : Call) :
    (publisher.perform call).2.isStarted := by
  obtain ⟨runtime, hruntime⟩ := Option.isSome_iff_exists.mp hstarted
  cases call with
  | start around options =>
    simpa only [perform, start, ensureStarted_of_runtime hruntime] using hstarted
  | publish around contentType content options =>
    simp only [perform, publish_of_runtime hruntime]
    cases Batch.decode contentType content with
    | error fault => exact hstarted
    | ok batch => exact hstarted
  | reload around source =>
    simp only [perform, reload, hruntime]
    cases source.compile around.fileText with
    | error fault => exact hstarted
    | ok template => rfl

/-- A publisher that is set up remains so. -/
theorem isStarted_run (hstarted : publisher.isStarted) (calls : List Call) :
    (publisher.run calls).isStarted := by
  induction calls generalizing publisher with
  | nil => exact hstarted
  | cons call rest ih => exact ih (isStarted_perform hstarted call)

/-- The first call is carried out, and then the others. -/
@[simp]
theorem run_cons (call : Call) (rest : List Call) :
    publisher.run (call :: rest) = (publisher.perform call).2.run rest :=
  rfl

/-- A first call that succeeds is one of those that succeed. -/
theorem successes_cons_of_ok {call : Call} {answer : Answer}
    (h : (publisher.perform call).1 = .ok answer) (rest : List Call) :
    publisher.successes (call :: rest) = call :: (publisher.perform call).2.successes rest := by
  simp [successes, h, Except.isOk, Except.toBool]

/-- A first call that fails is none of those that succeed. -/
theorem successes_cons_of_error {call : Call} {fault : PublishFault}
    (h : (publisher.perform call).1 = .error fault) (rest : List Call) :
    publisher.successes (call :: rest) = (publisher.perform call).2.successes rest := by
  simp [successes, h, Except.isOk, Except.toBool]

private theorem run_successes (hstarted : publisher.isStarted) (calls : List Call) :
    publisher.run (publisher.successes calls) = publisher.run calls := by
  induction calls generalizing publisher with
  | nil => rfl
  | cons call rest ih =>
    cases houtcome : (publisher.perform call).1 with
    | ok answer =>
      rw [successes_cons_of_ok houtcome, run_cons, run_cons]
      exact ih (isStarted_perform hstarted call)
    | error fault =>
      rw [successes_cons_of_error houtcome, run_cons, perform_eq_error hstarted houtcome]
      exact ih hstarted

private theorem outcomes_successes (hstarted : publisher.isStarted) (calls : List Call) :
    publisher.outcomes (publisher.successes calls) =
      (publisher.outcomes calls).filter Except.isOk := by
  induction calls generalizing publisher with
  | nil => rfl
  | cons call rest ih =>
    cases houtcome : (publisher.perform call).1 with
    | ok answer =>
      have hok : (publisher.perform call).1.isOk = true := by rw [houtcome]; rfl
      rw [successes_cons_of_ok houtcome, outcomes, outcomes, List.filter_cons_of_pos hok]
      rw [ih (isStarted_perform hstarted call)]
    | error fault =>
      have hnot : ¬ (publisher.perform call).1.isOk = true := by
        rw [houtcome]
        exact Bool.false_ne_true
      rw [successes_cons_of_error houtcome, outcomes, List.filter_cons_of_neg hnot]
      rw [perform_eq_error hstarted houtcome]
      exact ih hstarted

/-- Any calls to a publisher that is set up lead to the state that their successful ones lead to,
which get the same answers when they are carried out alone. A call that then fails leaves that
state as it is. -/
theorem failed_calls_leave_no_trace (hstarted : publisher.isStarted) (calls : List Call) :
    publisher.run (publisher.successes calls) = publisher.run calls ∧
    publisher.outcomes (publisher.successes calls) =
      (publisher.outcomes calls).filter Except.isOk ∧
    ∀ call fault, ((publisher.run calls).perform call).1 = .error fault →
      ((publisher.run calls).perform call).2 = publisher.run calls := by
  refine ⟨run_successes hstarted calls, outcomes_successes hstarted calls, ?_⟩
  intro call fault hfault
  exact perform_eq_error (isStarted_run hstarted calls) hfault

/-- A template whose samples have no place for interfaces, so that no sample can be finished. -/
def unfinishable : Template where
  container := ⟨.emptyMap, .empty⟩
  sample := ⟨.emptyMap, .empty⟩
  interface := ⟨.emptyMap, .empty⟩

/-- A publisher that is set up with that template and tracks nothing. -/
def withUnfinishable : Publisher :=
  { new with runtime := some ⟨.resolve [], unfinishable⟩ }

/-- A batch of two containers, which discovers both of them and then fails. -/
def refusedBatch : List UInt8 :=
  Batch.encode [
    ⟨Testkit.containerNamespace "web" "cache", .int 1, .newYear2020⟩,
    ⟨Testkit.containerNamespace "db" "cache", .int 2, .newYear2020⟩]

/-- Surroundings without files, where every port is free. -/
def bare : Surroundings :=
  ⟨fun _ => none, fun _ => none⟩

/-- The refused batch between two further starts is as if it had never been published. -/
theorem failed_calls_leave_no_trace_refusedBatch :
    let refused := Call.publish bare Batch.contentType refusedBatch []
    let start := Call.start bare []
    withUnfinishable.isStarted ∧
    withUnfinishable.successes [start, refused, start] = [start, start] ∧
    withUnfinishable.run [start, start] = withUnfinishable.run [start, refused, start] := by
  intro refused start
  have hstart : withUnfinishable.perform start =
      (.ok (.settings (.resolve [])), withUnfinishable) := rfl
  have hok : (withUnfinishable.perform start).1 = .ok (.settings (.resolve [])) := rfl
  have hrefused : (withUnfinishable.perform refused).1.isOk = false := by decide +kernel
  have hsuccesses : withUnfinishable.successes [start, refused, start] = [start, start] := by
    cases hfault : (withUnfinishable.perform refused).1 with
    | ok answer => simp [hfault, Except.isOk, Except.toBool] at hrefused
    | error fault =>
      rw [successes_cons_of_ok hok, hstart, successes_cons_of_error hfault,
        perform_eq_error rfl hfault, successes_cons_of_ok hok, hstart]
      rfl
  refine ⟨rfl, hsuccesses, ?_⟩
  have hstarted : withUnfinishable.isStarted = true := rfl
  have hrun := (failed_calls_leave_no_trace hstarted [start, refused, start]).1
  rwa [hsuccesses] at hrun

end Publisher

end ContainerFeed
