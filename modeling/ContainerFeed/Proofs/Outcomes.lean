import Mathlib.Data.List.Basic

/-!
# Outcomes of steps that may fail

A calculation in steps succeeds when each step does, and fails with the first step that fails.
These lemmas open such calculations one step at a time.
-/

namespace ContainerFeed.Outcome

universe u v

variable {ε ε' : Type u} {α β : Type v}

/-- A chain succeeds when its first step does, and then the next one on its result. -/
theorem bind_eq_ok_iff {x : Except ε α} {f : α → Except ε β} {b : β} :
    (x >>= f) = .ok b ↔ ∃ a, x = .ok a ∧ f a = .ok b := by
  cases x <;> simp [Bind.bind, Except.bind]

/-- A chain fails in its first step, or in the next one after that. -/
theorem bind_eq_error_iff {x : Except ε α} {f : α → Except ε β} {e : ε} :
    (x >>= f) = .error e ↔ x = .error e ∨ ∃ a, x = .ok a ∧ f a = .error e := by
  cases x <;> simp [Bind.bind, Except.bind]

/-- A result that is at hand is the one obtained. -/
@[simp]
theorem pure_eq_ok_iff {a b : α} : (pure a : Except ε α) = .ok b ↔ a = b := by
  simp [pure, Except.pure]

/-- A result that is at hand is no failure. -/
@[simp]
theorem pure_ne_error {a : α} {e : ε} : (pure a : Except ε α) ≠ .error e := by
  simp [pure, Except.pure]

/-- Changing the result of a step changes successes only. -/
theorem map_eq_ok_iff {x : Except ε α} {f : α → β} {b : β} :
    x.map f = .ok b ↔ ∃ a, x = .ok a ∧ f a = b := by
  cases x <;> simp [Except.map]

/-- Changing the result of a step leaves its failures alone. -/
theorem map_eq_error_iff {x : Except ε α} {f : α → β} {e : ε} :
    x.map f = .error e ↔ x = .error e := by
  cases x <;> simp [Except.map]

/-- Changing the failures of a step leaves its successes alone. -/
theorem mapError_eq_ok_iff {x : Except ε α} {f : ε → ε'} {a : α} :
    x.mapError f = .ok a ↔ x = .ok a := by
  cases x <;> simp [Except.mapError]

/-- A changed failure comes from a failure of the step. -/
theorem mapError_eq_error_iff {x : Except ε α} {f : ε → ε'} {e : ε'} :
    x.mapError f = .error e ↔ ∃ cause, x = .error cause ∧ f cause = e := by
  cases x <;> simp [Except.mapError]

/-- What is left without the failures is what the successes give. -/
theorem toOption_eq_some_iff {x : Except ε α} {a : α} : x.toOption = some a ↔ x = .ok a := by
  cases x <;> simp [Except.toOption]

/-- An outcome is a result or an error. -/
theorem ok_or_error (x : Except ε α) : (∃ a, x = .ok a) ∨ ∃ e, x = .error e := by
  cases x <;> simp

/-- A run over a list succeeds when its first step and the run over the others do. -/
theorem foldlM_cons_eq_ok_iff {f : β → α → Except ε β} {a : α} {rest : List α} {b c : β} :
    (a :: rest).foldlM f b = .ok c ↔ ∃ next, f b a = .ok next ∧ rest.foldlM f next = .ok c := by
  rw [List.foldlM_cons, bind_eq_ok_iff]

/-- A run over no steps ends where it began. -/
theorem foldlM_nil_eq_ok_iff {f : β → α → Except ε β} {b c : β} :
    ([] : List α).foldlM f b = .ok c ↔ b = c := by
  rw [List.foldlM_nil, pure_eq_ok_iff]

/-- Steps that fail together fail at one of them, which the ones before have led up to. -/
theorem exists_of_foldlM_eq_error {f : β → α → Except ε β} {steps : List α} {b : β} {e : ε}
    (h : steps.foldlM f b = .error e) :
    ∃ before a after mid, steps = before ++ a :: after ∧ before.foldlM f b = .ok mid ∧
      f mid a = .error e := by
  induction steps generalizing b with
  | nil => simp at h
  | cons a rest ih =>
    rw [List.foldlM_cons, bind_eq_error_iff] at h
    rcases h with hfail | ⟨next, hnext, hrest⟩
    · exact ⟨[], a, rest, b, rfl, rfl, hfail⟩
    · obtain ⟨before, a', after, mid, rfl, hbefore, hfail⟩ := ih hrest
      exact ⟨a :: before, a', after, mid, rfl,
        foldlM_cons_eq_ok_iff.mpr ⟨next, hnext, hbefore⟩, hfail⟩

/-- What every step keeps, all steps together keep. -/
theorem foldlM_preserves {f : β → α → Except ε β} {P : β → Prop} {steps : List α}
    (hstep : ∀ b next, ∀ a ∈ steps, P b → f b a = .ok next → P next) {b c : β} (hb : P b)
    (h : steps.foldlM f b = .ok c) : P c := by
  induction steps generalizing b with
  | nil => exact foldlM_nil_eq_ok_iff.mp h ▸ hb
  | cons a rest ih =>
    obtain ⟨next, hnext, hrest⟩ := foldlM_cons_eq_ok_iff.mp h
    exact ih (fun b next a ha => hstep b next a (by simp [ha]))
      (hstep b next a (by simp) hb hnext) hrest

/-- What no step gains and only some steps lose holds at the end when it held at the start and none
of these steps is among them. -/
theorem foldlM_holds_iff {f : β → α → Except ε β} {P : β → Prop} {Q : α → Prop}
    (hstep : ∀ {b next a}, f b a = .ok next → (P next ↔ P b ∧ Q a)) {steps : List α} {b c : β}
    (h : steps.foldlM f b = .ok c) : P c ↔ P b ∧ ∀ a ∈ steps, Q a := by
  induction steps generalizing b with
  | nil =>
    obtain rfl := foldlM_nil_eq_ok_iff.mp h
    simp
  | cons a rest ih =>
    obtain ⟨next, hnext, hrest⟩ := foldlM_cons_eq_ok_iff.mp h
    rw [ih hrest, hstep hnext, List.forall_mem_cons, and_assoc]

end ContainerFeed.Outcome
