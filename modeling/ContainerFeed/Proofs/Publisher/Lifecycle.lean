import ContainerFeed.Proofs.Outcomes
import ContainerFeed.Proofs.Publisher.Replay

/-!
# The life of a publisher

A publisher is set up once. Until a setup succeeds it stays as it was made, whatever it is asked.
The first setup that succeeds fixes its settings and the port it is exposed on, and no later call
looks at options again. Its template is always that of the text brought in last.
-/

namespace ContainerFeed

namespace Call

/-- What a call sets a publisher up with, if it is one that sets up. -/
def setup? : Call → Option (Surroundings × Options)
  | .start around options => some (around, options)
  | .publish around _ _ options => some (around, options)
  | .reload _ _ => none

/-- The calls that set up are starts and publications. -/
theorem setup?_eq_some_iff {call : Call} {around : Surroundings} {options : Options} :
    call.setup? = some (around, options) ↔ call = .start around options ∨
      ∃ contentType content, call = .publish around contentType content options := by
  cases call <;> simp [setup?]

/-- The text of the template that a call asks for, if it can be read. -/
def text? : Call → Option String
  | .start around options =>
    ((Settings.resolve options).templateSource.load around.fileText).toOption
  | .publish around _ _ options =>
    ((Settings.resolve options).templateSource.load around.fileText).toOption
  | .reload around source => (source.load around.fileText).toOption

/-- The same call where the exposure server refuses every port. -/
def refusing (reason : String) : Call → Call
  | .start around options => .start { around with refusal? := fun _ => some reason } options
  | .publish around contentType content options =>
    .publish { around with refusal? := fun _ => some reason } contentType content options
  | .reload around source => .reload { around with refusal? := fun _ => some reason } source

end Call

/-- A source compiles when its text can be read and compiles. -/
theorem Template.Source.compile_eq_ok_iff {source : Template.Source}
    {fileText : String → Option String} {template : Template} :
    source.compile fileText = .ok template ↔
      ∃ text, source.load fileText = .ok text ∧ Template.compile text = .ok template :=
  Outcome.bind_eq_ok_iff

namespace Publisher

variable {publisher : Publisher} {runtime : Runtime} {around : Surroundings} {options : Options}

/-- A call sets the publisher up: it was not set up before, and is afterwards. -/
def SetUpBy (publisher : Publisher) (call : Call) : Prop :=
  publisher.isStarted = false ∧ (publisher.perform call).2.isStarted = true

instance (publisher : Publisher) (call : Call) : Decidable (publisher.SetUpBy call) :=
  inferInstanceAs (Decidable (_ ∧ _))

/-- A call attempts to start the exposure server on a port: if the server refuses, the call fails
with the refusal. -/
def Attempts (publisher : Publisher) (call : Call) (port : UInt16) : Prop :=
  ∀ reason, (publisher.perform (call.refusing reason)).1 =
    .error (.setup (.exposure port reason))

/-- The options of the setup that a call carries out. -/
def setupBy? (publisher : Publisher) (call : Call) : Option Options :=
  if publisher.SetUpBy call then call.setup?.map Prod.snd else none

/-- The text of the template that a call brings in, with a setup or a reload that succeeds. -/
def textBy? (publisher : Publisher) (call : Call) : Option String :=
  match call with
  | .reload _ _ => if (publisher.perform call).1.isOk then call.text? else none
  | _ => if publisher.SetUpBy call then call.text? else none

/-- What is noted of some calls, one after another. -/
def notes {α : Type} (note? : Publisher → Call → Option α) (publisher : Publisher) :
    List Call → List α
  | [] => []
  | call :: rest => (note? publisher call).toList ++ notes note? (publisher.perform call).2 rest

/-- The options of all setups that succeed in the course of some calls. -/
def setups (publisher : Publisher) (calls : List Call) : List Options :=
  publisher.notes setupBy? calls

/-- The template texts that some calls bring in, from first to last. -/
def texts (publisher : Publisher) (calls : List Call) : List String :=
  publisher.notes textBy? calls

/-- The setups of some calls are that of the first one and those after it. -/
@[simp]
theorem setups_cons (call : Call) (rest : List Call) :
    publisher.setups (call :: rest) =
      (publisher.setupBy? call).toList ++ (publisher.perform call).2.setups rest :=
  rfl

/-- The texts that some calls bring in are that of the first one and those after it. -/
@[simp]
theorem texts_cons (call : Call) (rest : List Call) :
    publisher.texts (call :: rest) =
      (publisher.textBy? call).toList ++ (publisher.perform call).2.texts rest :=
  rfl

/-! ## Before a setup has succeeded -/

/-- A publisher that is not set up has no runtime. -/
theorem not_isStarted_iff : publisher.isStarted = false ↔ publisher.runtime = none := by
  rw [isStarted, Option.isSome_eq_false_iff, Option.isNone_iff_eq_none]

/-- A setup resolves the options, compiles the template and asks the exposure server, and succeeds
when the last two do. -/
theorem prepare_eq_ok_iff :
    prepare around options = .ok runtime ↔
      runtime.settings = .resolve options ∧
      runtime.settings.templateSource.compile around.fileText = .ok runtime.template ∧
      around.refusal? runtime.settings.serverPort = none := by
  simp only [prepare, Outcome.bind_eq_ok_iff, Outcome.mapError_eq_ok_iff]
  constructor
  · rintro ⟨template, htemplate, hexposed⟩
    cases hrefusal : around.refusal? (Settings.resolve options).serverPort with
    | some reason => simp [hrefusal] at hexposed
    | none =>
      rw [hrefusal] at hexposed
      obtain rfl := Outcome.pure_eq_ok_iff.mp hexposed
      exact ⟨rfl, htemplate, hrefusal⟩
  · obtain ⟨settings, template⟩ := runtime
    rintro ⟨rfl, htemplate, hrefusal⟩
    exact ⟨template, htemplate, by simp [hrefusal]⟩

/-- The publisher with a setup that has succeeded. -/
def setUp (publisher : Publisher) (runtime : Runtime) : Publisher :=
  { publisher with
    runtime := some runtime
    exposedPorts := publisher.exposedPorts ++ [runtime.settings.serverPort] }

/-- A publisher that is not set up is set up with what has been prepared. -/
theorem ensureStarted_of_none (h : publisher.runtime = none) (around : Surroundings)
    (options : Options) :
    publisher.ensureStarted around options =
      (prepare around options).map fun runtime => (runtime, publisher.setUp runtime) := by
  simp only [ensureStarted, h]
  cases prepare around options <;> rfl

/-- Without a setup there is no template to exchange. -/
theorem perform_of_setup?_none {call : Call} (h : publisher.runtime = none)
    (hcall : call.setup? = none) :
    publisher.perform call = (.error (.setup .notStarted), publisher) := by
  cases call with
  | start => simp [Call.setup?] at hcall
  | publish => simp [Call.setup?] at hcall
  | reload around source =>
    simp only [perform, reload, h]
    rfl

/-- A setup that fails leaves the publisher as it was. -/
theorem perform_of_prepare_error {call : Call} {fault : SetupFault}
    (h : publisher.runtime = none) (hcall : call.setup? = some (around, options))
    (hprepare : prepare around options = .error fault) :
    publisher.perform call = (.error (.setup fault), publisher) := by
  rcases Call.setup?_eq_some_iff.mp hcall with rfl | ⟨contentType, content, rfl⟩
  · simp only [perform, start, ensureStarted_of_none h, hprepare, Except.map, Except.mapError]
  · simp only [perform, publish, ensureStarted_of_none h, hprepare, Except.map]

/-- A setup that succeeds stays, whatever then becomes of the batch. -/
theorem perform_of_prepare_ok {call : Call} (h : publisher.runtime = none)
    (hcall : call.setup? = some (around, options))
    (hprepare : prepare around options = .ok runtime) :
    ∃ store, (publisher.perform call).2 = { publisher.setUp runtime with store } := by
  rcases Call.setup?_eq_some_iff.mp hcall with rfl | ⟨contentType, content, rfl⟩
  · refine ⟨publisher.store, ?_⟩
    simp only [perform, start, ensureStarted_of_none h, hprepare, Except.map]
    rfl
  · simp only [perform, publish, ensureStarted_of_none h, hprepare, Except.map]
    cases Batch.decode contentType content with
    | error fault => exact ⟨publisher.store, rfl⟩
    | ok batch => exact ⟨_, rfl⟩

/-- A call to a publisher that is not set up sets it up, or leaves it as it was. -/
theorem perform_of_none (h : publisher.runtime = none) (call : Call) :
    (publisher.perform call).2 = publisher ∧ (publisher.perform call).1.isOk = false ∨
      ∃ around options runtime store, call.setup? = some (around, options) ∧
        prepare around options = .ok runtime ∧
        (publisher.perform call).2 = { publisher.setUp runtime with store } := by
  cases hcall : call.setup? with
  | none => exact .inl (by rw [perform_of_setup?_none h hcall]; exact ⟨rfl, rfl⟩)
  | some given =>
    obtain ⟨around, options⟩ := given
    cases hprepare : prepare around options with
    | error fault =>
      exact .inl (by rw [perform_of_prepare_error h hcall hprepare]; exact ⟨rfl, rfl⟩)
    | ok runtime =>
      obtain ⟨store, hstore⟩ := perform_of_prepare_ok h hcall hprepare
      exact .inr ⟨around, options, runtime, store, rfl, hprepare, hstore⟩

/-- The text of a call whose setup succeeds is that of the template. -/
theorem exists_text?_of_prepare_ok {call : Call} (hcall : call.setup? = some (around, options))
    (hprepare : prepare around options = .ok runtime) :
    ∃ text, call.text? = some text ∧ Template.compile text = .ok runtime.template := by
  obtain ⟨hsettings, htemplate, _⟩ := prepare_eq_ok_iff.mp hprepare
  obtain ⟨text, hload, hcompile⟩ := Template.Source.compile_eq_ok_iff.mp htemplate
  rw [hsettings] at hload
  refine ⟨text, ?_, hcompile⟩
  rcases Call.setup?_eq_some_iff.mp hcall with rfl | ⟨contentType, content, rfl⟩
  · simp only [Call.text?, hload, Except.toOption]
  · simp only [Call.text?, hload, Except.toOption]

/-! ## After a setup has succeeded -/

/-- A call to a publisher that is set up changes its store and, if it is a reload that succeeds,
its template. -/
theorem perform_of_runtime (h : publisher.runtime = some runtime) (call : Call) :
    ∃ store template, (publisher.perform call).2 =
        { publisher with store, runtime := some { runtime with template } } ∧
      match publisher.textBy? call with
      | none => template = runtime.template
      | some text => Template.compile text = .ok template := by
  have hstarted : publisher.isStarted = true := by simp [isStarted, h]
  have hnot (call : Call) : ¬ publisher.SetUpBy call := by simp [SetUpBy, hstarted]
  have hsame : publisher =
      { publisher with runtime := some { runtime with template := runtime.template } } := by
    simp only [← h]
  cases call with
  | start around options =>
    refine ⟨publisher.store, runtime.template, ?_, by simp [textBy?, hnot]⟩
    simp only [perform, start, ensureStarted_of_runtime h]
    exact hsame
  | publish around contentType content options =>
    simp only [perform, publish_of_runtime h, textBy?, if_neg (hnot _)]
    cases Batch.decode contentType content with
    | error fault => exact ⟨publisher.store, runtime.template, hsame, rfl⟩
    | ok batch =>
      refine ⟨(publisher.takeIn runtime batch).2.store, runtime.template, ?_, rfl⟩
      simp only [takeIn, ← h]
  | reload around source =>
    cases hcompile : source.compile around.fileText with
    | error fault =>
      have hperform : publisher.perform (.reload around source) =
          (.error (.setup (.template fault)), publisher) := by
        simp only [perform, reload, h, hcompile, Except.mapError, Except.map]
      rw [textBy?, hperform, if_neg (by simp [Except.isOk, Except.toBool])]
      exact ⟨publisher.store, runtime.template, hsame, rfl⟩
    | ok template =>
      obtain ⟨text, hload, htext⟩ := Template.Source.compile_eq_ok_iff.mp hcompile
      have hperform : publisher.perform (.reload around source) =
          (.ok .reloaded, { publisher with runtime := some { runtime with template } }) := by
        simp only [perform, reload, h, hcompile, Except.mapError, Except.map]
      have htextBy : publisher.textBy? (.reload around source) = some text := by
        simp only [textBy?, hperform, Except.isOk, Except.toBool, if_true, Call.text?, hload,
          Except.toOption]
      rw [htextBy, hperform]
      exact ⟨publisher.store, template, rfl, htext⟩

/-- A call to a publisher that is set up is not a setup. -/
theorem setupBy?_of_runtime (h : publisher.runtime = some runtime) (call : Call) :
    publisher.setupBy? call = none := by
  have hstarted : publisher.isStarted = true := by simp [isStarted, h]
  simp [setupBy?, SetUpBy, hstarted]

/-- Publishing with a setup fails only for the batch. -/
theorem publish_of_runtime_isFatal (h : publisher.runtime = some runtime) {contentType : String}
    {content : List UInt8} {fault : PublishFault}
    (hfault : (publisher.publish around contentType content options).1 = .error fault) :
    fault.isFatal = false := by
  rw [publish_of_runtime h] at hfault
  cases hdecode : Batch.decode contentType content with
  | error cause =>
    simp only [hdecode, Except.error.injEq] at hfault
    rw [← hfault]
    rfl
  | ok batch =>
    simp only [hdecode, takeIn, Outcome.mapError_eq_error_iff] at hfault
    obtain ⟨failure, _, rfl⟩ := hfault
    rfl

/-- A publisher that is set up does not ask the exposure server for a port. -/
theorem perform_ne_exposure (h : publisher.runtime = some runtime) (call : Call) (port : UInt16)
    (reason : String) :
    (publisher.perform call).1 ≠ .error (.setup (.exposure port reason)) := by
  intro hfault
  cases call with
  | start around options =>
    simp only [perform, start, ensureStarted_of_runtime h] at hfault
    simp [Except.mapError, Except.map] at hfault
  | publish around contentType content options =>
    rw [perform, Outcome.map_eq_error_iff] at hfault
    have hfatal := publish_of_runtime_isFatal h hfault
    simp [PublishFault.isFatal] at hfatal
  | reload around source =>
    simp only [perform, reload, h] at hfault
    cases hcompile : source.compile around.fileText <;>
      simp [hcompile, Except.mapError, Except.map] at hfault

/-! ## Attempts to start the exposure server -/

/-- A setup whose port is refused fails with the template, if that does not compile. -/
theorem prepare_refusing (around : Surroundings) (options : Options) (reason : String) :
    prepare { around with refusal? := fun _ => some reason } options =
      match (Settings.resolve options).templateSource.compile around.fileText with
      | .error fault => .error (.template fault)
      | .ok _ => .error (.exposure (Settings.resolve options).serverPort reason) := by
  simp only [prepare]
  cases (Settings.resolve options).templateSource.compile around.fileText <;> rfl

/-- A call where every port is refused sets up with the same options. -/
theorem setup?_refusing {call : Call} (h : call.setup? = some (around, options))
    (reason : String) :
    (call.refusing reason).setup? =
      some ({ around with refusal? := fun _ => some reason }, options) := by
  rcases Call.setup?_eq_some_iff.mp h with rfl | ⟨contentType, content, rfl⟩
  · rfl
  · rfl

/-- A call that does not set up does not do so where every port is refused. -/
theorem setup?_refusing_of_none {call : Call} (h : call.setup? = none) (reason : String) :
    (call.refusing reason).setup? = none := by
  cases call with
  | start => simp [Call.setup?] at h
  | publish => simp [Call.setup?] at h
  | reload => rfl

/-- The exposure server is asked for a port by the calls that set a publisher up, once their
template has compiled. -/
theorem attempts_iff {call : Call} {port : UInt16} :
    publisher.Attempts call port ↔
      publisher.runtime = none ∧ ∃ around options template,
        call.setup? = some (around, options) ∧
        (Settings.resolve options).templateSource.compile around.fileText = .ok template ∧
        (Settings.resolve options).serverPort = port := by
  constructor
  · intro hattempts
    have hnone : publisher.runtime = none := by
      cases hruntime : publisher.runtime with
      | none => rfl
      | some runtime =>
        exact absurd (hattempts "") (perform_ne_exposure hruntime (call.refusing "") port "")
    refine ⟨hnone, ?_⟩
    have hfault := hattempts ""
    cases hcall : call.setup? with
    | none =>
      rw [perform_of_setup?_none hnone (setup?_refusing_of_none hcall "")] at hfault
      simp at hfault
    | some given =>
      obtain ⟨around, options⟩ := given
      have hprepare := prepare_refusing around options ""
      cases hcompile : (Settings.resolve options).templateSource.compile around.fileText with
      | error cause =>
        rw [hcompile] at hprepare
        rw [perform_of_prepare_error hnone (setup?_refusing hcall "") hprepare] at hfault
        simp at hfault
      | ok template =>
        rw [hcompile] at hprepare
        rw [perform_of_prepare_error hnone (setup?_refusing hcall "") hprepare] at hfault
        simp only [Except.error.injEq, PublishFault.setup.injEq, SetupFault.exposure.injEq,
          and_true] at hfault
        exact ⟨around, options, template, rfl, hcompile, hfault⟩
  · rintro ⟨hnone, around, options, template, hcall, hcompile, rfl⟩ reason
    have hprepare := prepare_refusing around options reason
    rw [hcompile] at hprepare
    rw [perform_of_prepare_error hnone (setup?_refusing hcall reason) hprepare]

/-! ## Runs -/

/-- The publisher has been set up with some options, and its template is that of a text. -/
structure RunsOn (publisher : Publisher) (options : Options) (text : String) : Prop where
  template : ∃ template, publisher.runtime = some ⟨.resolve options, template⟩ ∧
    Template.compile text = .ok template
  exposed : publisher.exposedPorts = [(Settings.resolve options).serverPort]

/-- A setup stays through a call, with the text that the call brings in, if it does. -/
theorem RunsOn.perform {text : String} (h : publisher.RunsOn options text) (call : Call) :
    (publisher.perform call).2.RunsOn options ((publisher.textBy? call).getD text) := by
  obtain ⟨template, hruntime, htext⟩ := h.template
  obtain ⟨store, latest, hperform, hlatest⟩ := perform_of_runtime hruntime call
  rw [hperform]
  refine ⟨⟨latest, rfl, ?_⟩, h.exposed⟩
  cases htextBy : publisher.textBy? call with
  | none =>
    rw [htextBy] at hlatest
    rwa [Option.getD_none, hlatest]
  | some text =>
    rw [htextBy] at hlatest
    exact hlatest

/-- A setup stays through any calls, with the text brought in last. -/
theorem RunsOn.run {text : String} (h : publisher.RunsOn options text) (calls : List Call) :
    (publisher.run calls).RunsOn options ((publisher.texts calls).getLastD text) ∧
      publisher.setups calls = [] := by
  induction calls generalizing publisher text with
  | nil => exact ⟨h, rfl⟩
  | cons call rest ih =>
    obtain ⟨template, hruntime, _⟩ := h.template
    -- The text in force after the call is the one that the later calls start from.
    obtain ⟨hruns, hsetups⟩ := ih (h.perform call)
    rw [run_cons, setups_cons, texts_cons, setupBy?_of_runtime hruntime, hsetups]
    refine ⟨?_, rfl⟩
    cases htextBy : publisher.textBy? call with
    | none =>
      rw [htextBy] at hruns
      exact hruns
    | some latest =>
      rw [htextBy] at hruns
      rwa [Option.toList_some, List.singleton_append, List.getLastD_cons]

/-- A call to a new publisher leaves it new or sets it up with its own options and text. -/
theorem perform_new (call : Call) :
    (new.perform call).2 = new ∧ new.setupBy? call = none ∧ new.textBy? call = none ∨
      ∃ options text, (new.perform call).2.RunsOn options text ∧
        new.setupBy? call = some options ∧ new.textBy? call = some text := by
  have hnone : new.runtime = none := rfl
  rcases perform_of_none hnone call with
    ⟨hsame, hfails⟩ | ⟨around, options, runtime, store, hcall, hprepare, hperform⟩
  · have hnot : ¬ new.SetUpBy call := by
      rintro ⟨hbefore, hafter⟩
      rw [hsame, hbefore] at hafter
      exact Bool.false_ne_true hafter
    refine .inl ⟨hsame, by simp [setupBy?, hnot], ?_⟩
    cases call <;> simp [textBy?, hnot, hfails]
  · have hset : new.SetUpBy call := ⟨rfl, by rw [hperform]; rfl⟩
    obtain ⟨text, htext, hcompile⟩ := exists_text?_of_prepare_ok hcall hprepare
    obtain ⟨hsettings, _, _⟩ := prepare_eq_ok_iff.mp hprepare
    refine .inr ⟨options, text, ?_, by simp [setupBy?, hset, hcall], ?_⟩
    · rw [hperform]
      refine ⟨⟨runtime.template, by rw [← hsettings]; rfl, hcompile⟩, ?_⟩
      rw [← hsettings]
      rfl
    · cases call with
      | start => simp [textBy?, hset, htext]
      | publish => simp [textBy?, hset, htext]
      | reload => simp [Call.setup?] at hcall

/-- Any calls to a new publisher leave it new or set it up once, with the options of that setup
and the text brought in last. -/
theorem run_new (calls : List Call) :
    new.run calls = new ∧ new.setups calls = [] ∨
      ∃ options text, (new.run calls).RunsOn options text ∧ new.setups calls = [options] ∧
        (new.texts calls).getLast? = some text := by
  induction calls with
  | nil => exact .inl ⟨rfl, rfl⟩
  | cons call rest ih =>
    rw [run_cons, setups_cons, texts_cons]
    rcases perform_new call with ⟨hsame, hsetup, htext⟩ | ⟨options, text, hruns, hsetup, htext⟩
    · rw [hsame, hsetup, htext]
      exact ih
    · obtain ⟨hlater, hsetups⟩ := hruns.run rest
      refine .inr ⟨options, _, hlater, by rw [hsetup, hsetups]; rfl, ?_⟩
      rw [htext, Option.toList_some, List.singleton_append, List.getLast?_cons,
        List.getLastD_eq_getLast?]

/-- Where a new publisher is in its life after some calls. -/
structure Lifecycle (calls : List Call) : Prop where
  /-- Until a setup has succeeded no container is tracked, nothing is counted, no port has been
  opened, and there is no template to exchange. -/
  untouched : new.setups calls = [] →
    (new.run calls).runtime = none ∧ (new.run calls).store = .empty ∧
    (new.run calls).exposedPorts = [] ∧
    ∀ around source, (new.run calls).perform (.reload around source) =
      (.error (.setup .notStarted), new.run calls)
  /-- Until then a start or a batch sets it up when the template compiles and the port is not
  refused, even if the batch is then refused. -/
  setsUp : new.setups calls = [] →
    ∀ call around options, call.setup? = some (around, options) →
      ((new.run calls).SetUpBy call ↔
        (∃ template,
          (Settings.resolve options).templateSource.compile around.fileText = .ok template) ∧
        around.refusal? (Settings.resolve options).serverPort = none)
  /-- There is one setup that succeeds. It fixes the settings and the one port that has been
  opened, and the template is that of the text brought in last. -/
  fixed : new.setups calls ≠ [] →
    ∃ options text template, new.setups calls = [options] ∧
      (new.run calls).runtime = some ⟨.resolve options, template⟩ ∧
      (new.run calls).exposedPorts = [(Settings.resolve options).serverPort] ∧
      (new.texts calls).getLast? = some text ∧ Template.compile text = .ok template
  /-- From then on the settings and the ports stay, no later call looks at what it would be set up
  with, and a batch that is refused is not a reason to stop. -/
  settled : ∀ runtime, (new.run calls).runtime = some runtime →
    (∀ later, ∃ template,
      (new.run (calls ++ later)).runtime = some { runtime with template } ∧
      (new.run (calls ++ later)).exposedPorts = (new.run calls).exposedPorts) ∧
    (∀ around options, (new.run calls).start around options =
      (.ok runtime.settings, new.run calls)) ∧
    (∀ contentType content around options around' options',
      (new.run calls).publish around contentType content options =
        (new.run calls).publish around' contentType content options') ∧
    ∀ contentType content around options fault,
      ((new.run calls).publish around contentType content options).1 = .error fault →
        fault.isFatal = false
  /-- A port is asked for only before the setup, by calls that set up, once their template has
  compiled. -/
  attempts : ∀ call port, (new.run calls).Attempts call port ↔
    new.setups calls = [] ∧ ∃ around options template,
      call.setup? = some (around, options) ∧
      (Settings.resolve options).templateSource.compile around.fileText = .ok template ∧
      (Settings.resolve options).serverPort = port

/-- Calls are carried out one part after another. -/
theorem run_append (calls later : List Call) :
    publisher.run (calls ++ later) = (publisher.run calls).run later := by
  simp only [run, List.foldl_append]

/-- A publisher that is set up keeps its settings and its ports. -/
theorem run_of_runtime (h : publisher.runtime = some runtime) (calls : List Call) :
    ∃ template, (publisher.run calls).runtime = some { runtime with template } ∧
      (publisher.run calls).exposedPorts = publisher.exposedPorts := by
  induction calls generalizing publisher runtime with
  | nil => exact ⟨runtime.template, h, rfl⟩
  | cons call rest ih =>
    obtain ⟨store, template, hperform, _⟩ := perform_of_runtime h call
    have hnext : (publisher.perform call).2.runtime = some { runtime with template } := by
      rw [hperform]
    obtain ⟨latest, hruntime, hports⟩ := ih hnext
    refine ⟨latest, hruntime, ?_⟩
    rw [run_cons, hports, hperform]

/-- A call sets up when its template compiles and its port is free. -/
theorem setUpBy_iff {call : Call} (h : publisher.runtime = none)
    (hcall : call.setup? = some (around, options)) :
    publisher.SetUpBy call ↔
      (∃ template,
        (Settings.resolve options).templateSource.compile around.fileText = .ok template) ∧
      around.refusal? (Settings.resolve options).serverPort = none := by
  have hnot : publisher.isStarted = false := not_isStarted_iff.mpr h
  cases hprepare : prepare around options with
  | error fault =>
    rw [SetUpBy, perform_of_prepare_error h hcall hprepare]
    constructor
    · rintro ⟨_, hstarted⟩
      exact absurd (hnot.symm.trans hstarted) Bool.false_ne_true
    · rintro ⟨⟨template, htemplate⟩, hrefusal⟩
      have hok : prepare around options = .ok ⟨.resolve options, template⟩ :=
        prepare_eq_ok_iff.mpr ⟨rfl, htemplate, hrefusal⟩
      rw [hok] at hprepare
      cases hprepare
  | ok runtime =>
    obtain ⟨store, hperform⟩ := perform_of_prepare_ok h hcall hprepare
    obtain ⟨hsettings, htemplate, hrefusal⟩ := prepare_eq_ok_iff.mp hprepare
    rw [hsettings] at htemplate hrefusal
    rw [SetUpBy, hperform]
    exact ⟨fun _ => ⟨⟨runtime.template, htemplate⟩, hrefusal⟩, fun _ => ⟨hnot, rfl⟩⟩

/-- The life of a publisher that has never been set up. -/
theorem Lifecycle.of_new {calls : List Call} (hnew : new.run calls = new)
    (hsetups : new.setups calls = []) : Lifecycle calls := by
  have hnone : (new.run calls).runtime = none := by rw [hnew]; rfl
  constructor
  case untouched =>
    intro _
    refine ⟨hnone, by rw [hnew]; rfl, by rw [hnew]; rfl, ?_⟩
    intro around source
    exact perform_of_setup?_none hnone rfl
  case setsUp =>
    intro _ call around options hcall
    exact setUpBy_iff hnone hcall
  case fixed =>
    intro hset
    exact absurd hsetups hset
  case settled =>
    intro runtime hruntime
    rw [hnone] at hruntime
    cases hruntime
  case attempts =>
    intro call port
    rw [attempts_iff]
    exact and_congr_left fun _ => ⟨fun _ => hsetups, fun _ => hnone⟩

/-- The life of a publisher that has been set up once. -/
theorem Lifecycle.of_runsOn {calls : List Call} {text : String}
    (hruns : (new.run calls).RunsOn options text) (hsetups : new.setups calls = [options])
    (htext : (new.texts calls).getLast? = some text) : Lifecycle calls := by
  obtain ⟨template, hruntime, hcompile⟩ := hruns.template
  have hset : new.setups calls ≠ [] := by rw [hsetups]; exact List.cons_ne_nil options []
  constructor
  case untouched =>
    intro hnone
    exact absurd hnone hset
  case setsUp =>
    intro hnone
    exact absurd hnone hset
  case fixed =>
    intro _
    exact ⟨options, text, template, hsetups, hruntime, hruns.exposed, htext, hcompile⟩
  case settled =>
    intro runtime hsome
    refine ⟨?_, ?_, ?_, ?_⟩
    · intro later
      rw [run_append]
      exact run_of_runtime hsome later
    · intro around options
      simp only [start, ensureStarted_of_runtime hsome]
    · intro contentType content around options around' options'
      rw [publish_of_runtime hsome, publish_of_runtime hsome]
    · intro contentType content around options fault hfault
      exact publish_of_runtime_isFatal hsome hfault
  case attempts =>
    intro call port
    rw [attempts_iff, hruntime]
    constructor
    · rintro ⟨hnone, _⟩
      cases hnone
    · rintro ⟨hnone, _⟩
      exact absurd hnone hset

/-- The calls to a new publisher set it up at most once, and for good. -/
theorem lifecycle (calls : List Call) : Lifecycle calls := by
  rcases run_new calls with ⟨hnew, hsetups⟩ | ⟨options, text, hruns, hsetups, htext⟩
  · exact .of_new hnew hsetups
  · exact .of_runsOn hruns hsetups htext

end Publisher

end ContainerFeed
