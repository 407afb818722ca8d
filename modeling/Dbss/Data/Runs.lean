import Mathlib.Data.List.Induction

namespace Dbss.Data

/-! Runs of a machine whose steps are not always possible. -/

variable {σ α : Type}

def ran (step : σ → α → Option σ) (start : σ) (actions : List α) : Option σ :=
  actions.foldlM step start

/-- What holds of the actions so far and the state they lead to, all along a run. -/
def Throughout (step : σ → α → Option σ) (start : σ) (holds : List α → σ → Prop) (actions : List α) : Prop :=
  ∀ front back state, actions = front ++ back → ran step start front = some state → holds front state

/-- What each action of a run is to the actions and the state before it. -/
def EachStep (step : σ → α → Option σ) (start : σ) (allowed : List α → σ → α → Prop) (actions : List α) : Prop :=
  ∀ front action back before after, actions = front ++ action :: back → ran step start front = some before →
    step before action = some after → allowed front before action

variable {step : σ → α → Option σ} {start state : σ} {holds : List α → σ → Prop}
  {allowed : List α → σ → α → Prop} {actions front : List α} {action : α}

theorem ran_append_singleton :
    ran step start (front ++ [action]) = some state ↔
      ∃ before, ran step start front = some before ∧ step before action = some state := by
  simp [ran, Option.bind_eq_some_iff]

/-- Where every action that is allowed keeps what holds, it holds all along. -/
theorem throughout_of_eachStep (initial : holds [] start)
    (each : ∀ front before action after, ran step start front = some before → holds front before →
      step before action = some after → allowed front before action → holds (front ++ [action]) after)
    (steps : EachStep step start allowed actions) : Throughout step start holds actions := by
  intro front
  induction front using List.reverseRecOn with
  | nil =>
      rintro back state - reached
      cases reached
      exact initial
  | append_singleton front action ih =>
      rintro back state rfl reached
      obtain ⟨before, earlier, stepped⟩ := ran_append_singleton.mp reached
      refine each front before action state earlier (ih (action :: back) before (by simp) earlier) stepped ?_
      exact steps front action back before state (by simp) earlier stepped

/-- Where an action keeps what holds just when it is allowed, all of a run keeps
it just when each of its actions is. -/
theorem throughout_iff (initial : holds [] start)
    (each : ∀ front before action after, ran step start front = some before → holds front before →
      step before action = some after → (holds (front ++ [action]) after ↔ allowed front before action)) :
    Throughout step start holds actions ↔ EachStep step start allowed actions := by
  constructor
  · rintro throughout front action back before after rfl reached stepped
    have further : ran step start (front ++ [action]) = some after :=
      ran_append_singleton.mpr ⟨before, reached, stepped⟩
    exact (each front before action after reached (throughout front _ before rfl reached) stepped).mp
      (throughout _ back after (by simp) further)
  · exact throughout_of_eachStep initial fun front before action after reached kept stepped =>
      (each front before action after reached kept stepped).mpr

end Dbss.Data
