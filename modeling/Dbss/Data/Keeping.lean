namespace Dbss.Data

/-! Services whose answers follow a state that the requests change. -/

variable {σ α β : Type}

/-- Over these requests, which come after `earlier` ones that led to `state`,
every answer is one that the state before it allows. -/
def Keeps (act : σ → α → σ) (answers : σ → α → β → Prop) (answer : List α → α → β) (state : σ) (earlier : List α) :
    List α → Prop
  | [] => True
  | request :: later =>
      answers state request (answer earlier request) ∧
        Keeps act answers answer (act state request) (earlier ++ [request]) later

variable {act : σ → α → σ} {answers : σ → α → β → Prop} {answer : List α → α → β} {state : σ}
  {earlier front back : List α}

theorem Keeps.later (keeps : Keeps act answers answer state earlier (front ++ back)) :
    Keeps act answers answer (front.foldl act state) (earlier ++ front) back := by
  induction front generalizing state earlier with
  | nil => simpa using keeps
  | cons request front ih => simpa using ih keeps.2

theorem Keeps.before (keeps : Keeps act answers answer state earlier (front ++ back)) :
    Keeps act answers answer state earlier front := by
  induction front generalizing state earlier with
  | nil => trivial
  | cons request front ih => exact ⟨keeps.1, ih keeps.2⟩

end Dbss.Data
