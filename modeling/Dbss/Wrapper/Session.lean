import Dbss.Wrapper.Api

namespace Dbss

open Dbss.Util Dbss.Net

/-! Runs of data operations on one object, from the one `DBSS_new` returns. -/

structure ApiCall where
  this : DBSS
  host : Host
  api : Api

def ApiCall.run (made : ApiCall) : Run DBSS.Call :=
  made.api.operation.perform made.this made.host

/-- The calls a program makes one after the other.  One that does not return is the last. -/
def DBSS.session (this : DBSS) (host : Host) : List Api → List ApiCall
  | [] => []
  | api :: later =>
      ⟨this, host, api⟩ ::
        match api.operation.perform this host with
        | .done call => DBSS.session call.this call.host later
        | .waiting | .undefined => []

/-- `link->send` with `link` NULL. -/
def ApiCall.DereferencesNull (made : ApiCall) : Prop :=
  made.this.client.link = none ∧ made.api.operation.requests ≠ []

/-- On an unconnected object the call does not touch the link; it returns with a
status that is not `ok` and stores neither a number nor a list. -/
def ApiCall.FailsCleanly (made : ApiCall) : Prop :=
  made.this.client.link = none →
    ¬ made.DereferencesNull ∧
      ∃ call, made.run = .done call ∧ call.returned.s.ok = false ∧
        call.returned.num = none ∧ call.returned.vec = none

theorem ClientImpl.request_connected {client : ClientImpl} {req : List Bytes} {host : Host}
    {call : ClientCall} (done : client.request req host = .done call) : call.client.link ≠ none := by
  unfold ClientImpl.request at done
  split at done
  · cases done
  · split at done
    · cases done
    · split at done
      · cases done
        simp
      · obtain ⟨flushed, _, rest⟩ := Run.bind_eq_done.mp done
        split at rest
        · cases rest
          simp
        · obtain ⟨answered, _, last⟩ := Run.bind_eq_done.mp rest
          split at last <;> cases last <;> simp

theorem perform_connected {operation : Operation Returned} {this : DBSS} {host : Host}
    {call : DBSS.Call} (connected : this.client.link ≠ none)
    (done : operation.perform this host = .done call) : call.this.client.link ≠ none := by
  cases operation with
  | request req finish =>
      obtain ⟨answered, made, rest⟩ := Run.bind_eq_done.mp done
      cases rest
      exact ClientImpl.request_connected made
  | thrown finish =>
      cases done
      exact connected

theorem session_connected {this : DBSS} (connected : this.client.link ≠ none) (host : Host)
    (calls : List Api) : ∀ made ∈ this.session host calls, made.this.client.link ≠ none := by
  induction calls generalizing this host with
  | nil => simp [DBSS.session]
  | cons api later ih =>
      intro made member
      rcases List.mem_cons.mp member with rfl | later
      · exact connected
      · split at later
        · next call done => exact ih (perform_connected connected done) call.host made later
        · cases later
        · cases later

/-- An operation that makes no request has caught an exception, and by then it
has a list to hand out. -/
theorem Api.caught_vec {api : Api} (nothing : api.operation.requests = []) (s : Status)
    (errno : Errno) (resp : Option (List Bytes)) : (api.operation.result s errno resp).vec ≠ none := by
  cases api with
  | list op =>
      change op.operation.requests = [] at nothing
      change (op.operation.result s errno resp).vec ≠ none
      rcases op.operation_cases with ⟨_, table, caught, _⟩ | ⟨_, req, made⟩
      · rw [caught]
        simp [Operation.result, Returned.caught]
      · rw [made] at nothing
        cases nothing
  | _ => cases nothing

/-- On an unconnected object no operation fails cleanly: a request goes through
the NULL link, and a caught exception still changes the list. -/
theorem ApiCall.not_failsCleanly {made : ApiCall} (unconnected : made.this.client.link = none) :
    ¬ made.FailsCleanly := by
  intro clean
  obtain ⟨safe, call, done, _, _, unchanged⟩ := clean unconnected
  have nothing : made.api.operation.requests = [] := by
    simpa [DereferencesNull, unconnected] using safe
  obtain ⟨errno, resp, outcome, _⟩ := Operation.perform_done done
  exact Api.caught_vec nothing made.this.s errno resp (outcome ▸ unchanged)

/-- The calls on an object fail cleanly, as far as they find it unconnected,
exactly when `DBSS_new` connected it or nobody uses it. -/
theorem session_failsCleanly_iff (link : Option Link) (host : Host) (calls : List Api) :
    (∀ made ∈ (DBSS.new link).session host calls, made.FailsCleanly) ↔ link ≠ none ∨ calls = [] := by
  constructor
  · intro clean
    cases calls with
    | nil => exact .inr rfl
    | cons api later =>
        left
        intro unconnected
        exact ApiCall.not_failsCleanly unconnected (clean ⟨.new link, host, api⟩ (by simp [DBSS.session]))
  · rintro (connected | rfl)
    · intro made member unconnected
      exact absurd unconnected (session_connected connected host calls made member)
    · simp [DBSS.session]

/-- After a failed connect the first `DBSS_incr` calls `send` on NULL. -/
theorem incr_unconnected :
    ¬ ∀ made ∈ (DBSS.new none).session (.sending [] []) [.incr (ascii "key") 1], made.FailsCleanly := by
  intro clean
  exact ((clean _ (List.mem_singleton.mpr rfl)) rfl).1 ⟨rfl, by decide⟩

end Dbss
