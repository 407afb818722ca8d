import Dbss.Util.Strings

namespace Dbss.Net

open Dbss.Util

/-! The operating system and the peer, as a connected socket shows them. -/

/-- What one call of `read(2)` does.  `deliver more` hands over at most
`more + 1` bytes: never more than were asked for or have arrived. -/
inductive ReadOutcome where
  | deliver (more : Nat)
  | eof
  | fail (code : Errno)
deriving DecidableEq, Repr

/-- The outcomes after which `read` is tried again or has something to show. -/
def ReadOutcome.Passes : ReadOutcome → Prop
  | .deliver _ => True
  | .eof => False
  | .fail code => code = .eintr

instance (outcome : ReadOutcome) : Decidable outcome.Passes :=
  match outcome with
  | .deliver _ => .isTrue trivial
  | .eof => .isFalse id
  | .fail code => inferInstanceAs (Decidable (code = .eintr))

def ReadOutcome.delivers : ReadOutcome → Bool
  | .deliver _ => true
  | _ => false

/-- What one call of `write(2)` does: take at most `count` of the bytes offered, or fail. -/
inductive WriteOutcome where
  | accept (count : Nat)
  | fail (code : Errno)
deriving DecidableEq, Repr

/-- The outcomes after which `flush` goes on. -/
def WriteOutcome.Passes : WriteOutcome → Prop
  | .accept _ => True
  | .fail code => code = .eintr ∨ code = .ewouldblock

instance (outcome : WriteOutcome) : Decidable outcome.Passes :=
  match outcome with
  | .accept _ => .isTrue trivial
  | .fail code => inferInstanceAs (Decidable (code = .eintr ∨ code = .ewouldblock))

def WriteOutcome.accepts : WriteOutcome → Bool
  | .accept count => decide (0 < count)
  | .fail _ => false

/-- The outcomes used up where a schedule has gone from `before` to `after`. -/
def used {ε : Type} (before after : List ε) : List ε :=
  before.take (before.length - after.length)

/-- A schedule has gone from `before` to `after`, and `good` says whether all
the outcomes used up on the way passed. -/
def Spent {ε : Type} (passes : ε → Prop) (before after : List ε) (good : Prop) : Prop :=
  ∃ used, before = used ++ after ∧ (good ↔ ∀ outcome ∈ used, passes outcome)

namespace Spent

variable {ε : Type} {passes : ε → Prop} {before middle after : List ε} {good : Prop}

theorem nothing (holds : good) : Spent passes before before good :=
  ⟨[], rfl, by simpa using holds⟩

theorem pass {outcome : ε} (passed : passes outcome) (holds : good) :
    Spent passes (outcome :: after) after good :=
  ⟨[outcome], rfl, by simpa [passed] using holds⟩

theorem stop {outcome : ε} (bad : ¬ passes outcome) (fails : ¬ good) :
    Spent passes (outcome :: after) after good :=
  ⟨[outcome], rfl, by simpa [bad] using fails⟩

theorem congr {same : Prop} (spent : Spent passes before after good) (iff : good ↔ same) :
    Spent passes before after same :=
  iff_iff_eq.mp iff ▸ spent

theorem trans (first : Spent passes before middle True) (second : Spent passes middle after good) :
    Spent passes before after good := by
  obtain ⟨early, rfl, passed⟩ := first
  obtain ⟨late, rfl, rest⟩ := second
  refine ⟨early ++ late, (List.append_assoc ..).symm, ?_⟩
  rw [List.forall_mem_append, ← passed, true_and, rest]

theorem iff_used (spent : Spent passes before after good) :
    good ↔ ∀ outcome ∈ used before after, passes outcome := by
  obtain ⟨early, rfl, all⟩ := spent
  rw [all, used, List.length_append, Nat.add_sub_cancel, List.take_left]

theorem suffix (spent : Spent passes before after good) : after <:+ before := by
  obtain ⟨early, rfl, _⟩ := spent
  exact List.suffix_append early after

theorem failed (spent : Spent passes before after good) (bad : ¬ good) :
    ∃ outcome ∈ before, ¬ passes outcome := by
  obtain ⟨used, rfl, all⟩ := spent
  rw [all] at bad
  simp only [not_forall] at bad
  obtain ⟨outcome, member, stops⟩ := bad
  exact ⟨outcome, List.mem_append_left _ member, stops⟩

end Spent

/-- The state outside the program.  `peer received` is everything the peer has
sent once it has received `received`; `accepted` is what `write(2)` has taken
so far and `delivered` counts the bytes `read(2)` has handed over.  `reads` and
`writes` are the schedule of the coming calls, and `asked` the byte counts the
calls of `read(2)` made so far have asked for. -/
structure Host where
  errno : Errno
  peer : Bytes → Bytes
  accepted : Bytes
  delivered : Nat
  reads : List ReadOutcome
  writes : List WriteOutcome
  asked : List Int

/-- The bytes the peer has sent that no call of `read(2)` has returned yet. -/
def Host.inflight (host : Host) : Bytes :=
  (host.peer host.accepted).drop host.delivered

/-- A fresh connection on which the peer sends `bytes`, whatever it receives. -/
def Host.sending (bytes : Bytes) (reads : List ReadOutcome) : Host :=
  { errno := .success, peer := fun _ => bytes, accepted := [], delivered := 0, reads, writes := []
    asked := [] }

theorem Host.inflight_drop {host : Host} {bytes more : Bytes} (split : host.inflight = bytes ++ more) :
    (host.peer host.accepted).drop (host.delivered + bytes.length) = more := by
  rw [← List.drop_drop]
  exact (congrArg (List.drop bytes.length) split).trans List.drop_left

/-- How far a call gets: it returns, it is still waiting for the socket when
the schedule ends, or its behaviour is undefined. -/
inductive Run (α : Type) where
  | done (value : α)
  | waiting
  | undefined
deriving DecidableEq, Repr

namespace Run

variable {α β γ : Type}

def bind (run : Run α) (next : α → Run β) : Run β :=
  match run with
  | .done value => next value
  | .waiting => .waiting
  | .undefined => .undefined

@[simp] theorem bind_done (value : α) (next : α → Run β) : (done value).bind next = next value := rfl

@[simp] theorem bind_waiting (next : α → Run β) : (waiting : Run α).bind next = .waiting := rfl

@[simp] theorem bind_undefined (next : α → Run β) : (undefined : Run α).bind next = .undefined := rfl

theorem bind_assoc (run : Run α) (next : α → Run β) (last : β → Run γ) :
    (run.bind next).bind last = run.bind fun value => (next value).bind last := by
  cases run <;> rfl

theorem bind_eq_done {run : Run α} {next : α → Run β} {result : β} :
    run.bind next = .done result ↔ ∃ value, run = .done value ∧ next value = .done result := by
  cases run <;> simp

end Run

end Dbss.Net
