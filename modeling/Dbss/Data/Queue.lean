import Mathlib.Data.List.Basic

namespace Dbss.Data

/-! Queues, and machines whose state holds one. -/

/-- Items are added at the back or removed from the front. -/
inductive QueueEvent (α : Type) where
  | push (items : List α)
  | pop (count : Nat)

namespace QueueEvent

variable {α : Type} {queue next : List α}

def pushed : QueueEvent α → List α
  | push items => items
  | pop _ => []

def popped : QueueEvent α → Nat
  | push _ => 0
  | pop count => count

/-- Only what is in the queue can be removed. -/
def Step (queue : List α) (event : QueueEvent α) (next : List α) : Prop :=
  event.popped ≤ queue.length ∧ next = (queue ++ event.pushed).drop event.popped

theorem step_push {items : List α} : Step queue (push items) (queue ++ items) :=
  ⟨Nat.zero_le _, rfl⟩

theorem step_idle : Step queue (push []) queue :=
  ⟨Nat.zero_le _, by simp [popped, pushed]⟩

def allPushed (events : List (QueueEvent α)) : List α :=
  events.flatMap pushed

def allPopped : List (QueueEvent α) → Nat
  | [] => 0
  | event :: events => event.popped + allPopped events

theorem Step.drop {event : QueueEvent α} (step : Step queue event next) (later : List α) (count : Nat) :
    (next ++ later).drop count = (queue ++ (event.pushed ++ later)).drop (event.popped + count) := by
  obtain ⟨present, rfl⟩ := step
  have inside : event.popped ≤ (queue ++ event.pushed).length := by
    rw [List.length_append]
    omega
  rw [← List.drop_append_of_le_length inside, List.drop_drop, List.append_assoc]

end QueueEvent

/-! ### Machines -/

section Machine

variable {σ ο α : Type} {step : σ → ο → σ} {allowed : σ → ο → Prop} {state : σ} {ops : List ο}

def AllAllowed (step : σ → ο → σ) (allowed : σ → ο → Prop) : σ → List ο → Prop
  | _, [] => True
  | state, op :: ops => allowed state op ∧ AllAllowed step allowed (step state op) ops

instance decidableAllAllowed [∀ state op, Decidable (allowed state op)] :
    (state : σ) → (ops : List ο) → Decidable (AllAllowed step allowed state ops)
  | _, [] => .isTrue trivial
  | state, op :: ops =>
      have : Decidable (AllAllowed step allowed (step state op) ops) := decidableAllAllowed (step state op) ops
      inferInstanceAs (Decidable (_ ∧ _))

theorem AllAllowed.preserves (valid : σ → Prop) (permitted : AllAllowed step allowed state ops)
    (start : valid state)
    (each : ∀ state op, valid state → allowed state op → valid (step state op)) :
    valid (ops.foldl step state) := by
  induction ops generalizing state with
  | nil => exact start
  | cons op ops ih => exact ih permitted.2 (each state op start permitted.1)

/-- If each operation acts as its event on the queue that `view` shows, so do
whole runs.  An operation may also break the state for good, which ends the
state's being `alive`. -/
theorem AllAllowed.conserves (valid alive : σ → Prop) {view : σ → List α} {event : ο → QueueEvent α}
    (permitted : AllAllowed step allowed state ops) (start : valid state)
    (each : ∀ state op, valid state → allowed state op → valid (step state op))
    (moves : ∀ state op, valid state → allowed state op → alive (step state op) →
      alive state ∧ QueueEvent.Step (view state) (event op) (view (step state op)))
    (working : alive (ops.foldl step state)) :
    alive state ∧ view (ops.foldl step state) =
      (view state ++ QueueEvent.allPushed (ops.map event)).drop (QueueEvent.allPopped (ops.map event)) := by
  induction ops generalizing state with
  | nil => exact ⟨working, by simp [QueueEvent.allPushed, QueueEvent.allPopped]⟩
  | cons op ops ih =>
      obtain ⟨between, rest⟩ := ih permitted.2 (each state op start permitted.1) working
      obtain ⟨before, moved⟩ := moves state op start permitted.1 between
      refine ⟨before, ?_⟩
      rw [List.foldl_cons, rest, moved.drop]
      rfl

end Machine

end Dbss.Data
