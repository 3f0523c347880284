import ContainerFeed.Ingest.InPlace
import ContainerFeed.Proofs.Outcomes

/-!
# A failed batch leaves the store alone

Taking in a batch in place comes to the same as computing the new store first and installing it
afterwards: nothing is written before the last step that can fail.
-/

namespace ContainerFeed.Store

namespace Change

variable {α β : Type}

/-- The second steps are carried out on the store that the first ones leave, unless these fail. -/
theorem on_bind (first : Change α) (next : α → Change β) (store : Store) :
    (first >>= next).on store = match first.on store with
      | (.ok a, changed) => (next a).on changed
      | (.error failure, changed) => (.error failure, changed) := by
  have hrun : (first >>= next).on store =
      Id.run (StateT.run (ExceptT.bindCont next (first.on store).1) (first.on store).2) := rfl
  rw [hrun]
  rcases first.on store with ⟨outcome, changed⟩
  cases outcome <;> rfl

/-- Steps succeed one after another when the first ones do, and then the second ones on the store
that these leave. -/
theorem on_bind_eq_ok_iff {first : Change α} {next : α → Change β} {store after : Store} {b : β} :
    (first >>= next).on store = (.ok b, after) ↔
      ∃ a middle, first.on store = (.ok a, middle) ∧ (next a).on middle = (.ok b, after) := by
  rw [on_bind]
  rcases first.on store with ⟨outcome, middle⟩
  cases outcome <;> simp

/-- A result that is at hand leaves the store as it was. -/
theorem on_pure_eq_ok_iff {a b : α} {store after : Store} :
    (pure a : Change α).on store = (.ok b, after) ↔ b = a ∧ after = store := by
  have hrun : (pure a : Change α).on store = (.ok a, store) := rfl
  rw [hrun, Prod.mk.injEq, Except.ok.injEq, eq_comm, eq_comm (a := store)]

/-- An outcome that is at hand leaves the store as it was. -/
@[simp]
theorem on_settle (outcome : Except IngestFailure α) (store : Store) :
    (settle outcome).on store = (outcome, store) :=
  rfl

/-- A change that cannot fail is carried out. -/
@[simp]
theorem on_modify (f : Store → Store) (store : Store) :
    (modify f : Change PUnit).on store = (.ok (), f store) :=
  rfl

end Change

variable {template : Template} {settings : Settings}

/-- A measurement changes rounds, and no store. -/
theorem on_shareInPlace (rounds : List (String × Round)) (m : Measurement) (store : Store) :
    (shareInPlace template settings rounds m).on store =
      (store.share template settings rounds m, store) :=
  rfl

/-- Sharing out a batch only reads the store. -/
theorem on_foldlM_shareInPlace (batch : List Measurement) (rounds : List (String × Round))
    (store : Store) :
    (batch.foldlM (shareInPlace template settings) rounds).on store =
      (batch.foldlM (store.share template settings) rounds, store) := by
  induction batch generalizing rounds with
  | nil => rfl
  | cons m batch ih =>
    rw [List.foldlM_cons, List.foldlM_cons, Change.on_bind, on_shareInPlace]
    cases store.share template settings rounds m with
    | error failure => rfl
    | ok next => exact ih next

/-- Putting containers one after another cannot fail, and commits them all. -/
theorem on_forM_put (containers : List (String × Container)) (store : Store) :
    (containers.forM put).on store = (.ok (), store.commit containers) := by
  rw [List.forM_eq_forM]
  induction containers generalizing store with
  | nil => rfl
  | cons entry rest ih =>
    rw [List.forM_cons, Change.on_bind, put, Change.on_modify]
    exact ih _

/-- In place, a batch that can be taken in leaves the new store, and any other leaves the store
as it was. -/
theorem on_ingestInPlace (store : Store) (batch : List Measurement) :
    (ingestInPlace template settings batch).on store =
      match store.ingest template settings batch with
      | .ok (report, after) => (.ok report, after)
      | .error failure => (.error failure, store) := by
  have hshared : (batch.foldlM (shareInPlace template settings) []).on store =
      (store.roundsOf template settings batch, store) := on_foldlM_shareInPlace batch [] store
  rw [ingestInPlace, Change.on_bind, hshared]
  cases hrounds : store.roundsOf template settings batch with
  | error failure =>
    have hingest : store.ingest template settings batch = .error failure :=
      Outcome.bind_eq_error_iff.mpr (.inl hrounds)
    rw [hingest]
  | ok rounds =>
    simp only [Change.on_bind]
    rw [Change.on_settle]
    cases hfinish : finishRounds settings rounds with
    | error e =>
      have hingest : store.ingest template settings batch = .error (.path e) := by
        refine Outcome.bind_eq_error_iff.mpr (.inr ⟨rounds, hrounds, ?_⟩)
        exact Outcome.bind_eq_error_iff.mpr
          (.inl (Outcome.mapError_eq_error_iff.mpr ⟨e, hfinish, rfl⟩))
      rw [hingest]
      rfl
    | ok containers =>
      have hingest : store.ingest template settings batch =
          .ok (reportOf batch rounds containers,
            { store.commit containers with counters := count store.counters batch rounds }) := by
        refine Outcome.bind_eq_ok_iff.mpr ⟨rounds, hrounds, ?_⟩
        exact Outcome.bind_eq_ok_iff.mpr
          ⟨containers, Outcome.mapError_eq_ok_iff.mpr hfinish, rfl⟩
      rw [hingest]
      simp only [Except.mapError, on_forM_put, Change.on_modify]
      rfl

/-- A batch succeeds in place exactly when it is taken in, with the same report and store. -/
theorem on_ingestInPlace_eq_ok_iff {store after : Store} {batch : List Measurement}
    {report : IngestReport} :
    (ingestInPlace template settings batch).on store = (.ok report, after) ↔
      store.ingest template settings batch = .ok (report, after) := by
  rw [on_ingestInPlace]
  split <;> simp_all

end ContainerFeed.Store
