import Dbss.Wrapper.Dictionary

namespace Dbss

open Dbss.Data Dbss.Util Dbss.Ssdb Dbss.Net

/-! Queues that a session uses between its other calls. -/

/-- The elements under each name, the oldest first: what an SSDB server keeps,
as far as `qpush` and `qpop` go. -/
abbrev Queues := Bytes → List Bytes

namespace Queues

def empty : Queues :=
  fun _ => []

/-- Elements are added at the back and removed from the front. -/
def act (queues : Queues) (request : List Bytes) : Queues :=
  let name := request.getD 1 []
  if request.head? = some (ascii "qpush") then
    Function.update queues name (queues name ++ request.drop 2)
  else if request.head? = some (ascii "qpop") then
    Function.update queues name (queues name).tail
  else
    queues

/-- Only the two commands for queues are looked at. -/
def Answers (queues : Queues) (request reply : List Bytes) : Prop :=
  if request.head? = some (ascii "qpop") then reply = Store.found (queues (request.getD 1 [])).head?
  else request.head? = some (ascii "qpush") → reply.head? = some (ascii "ok")

instance (queues : Queues) (request reply : List Bytes) : Decidable (queues.Answers request reply) :=
  inferInstanceAs (Decidable (ite _ _ _))

end Queues

/-- What the call adds to the queue at `key`. -/
def Api.pushed (key : Bytes) : Api → List Bytes
  | .qpush name val => if cString name = key then [cString val] else []
  | _ => []

/-- What the call hands out of the queue at `key`: the text, if it returns 1. -/
def Api.popped (key : Bytes) (returned : Returned) : Api → List Bytes
  | .qpop name => if cString name = key ∧ returned.ret = 1 then [bufferText returned.writes] else []
  | _ => []

def ApiCall.popped (key : Bytes) (made : ApiCall) : List Bytes :=
  match made.run with
  | .done call => made.api.popped key call.returned
  | .waiting | .undefined => []

def pushedBy (key : Bytes) (calls : List ApiCall) : List Bytes :=
  calls.flatMap fun made => made.api.pushed key

def poppedBy (key : Bytes) (calls : List ApiCall) : List Bytes :=
  calls.flatMap (ApiCall.popped key)

namespace Queues

/-- What a call returns and hands out, where it is one for queues. -/
def Shows (queues : Queues) (returned : Returned) : Api → Prop
  | .qpush .. => returned.ret = 1
  | .qpop key => Dictionary.ShowsText (queues (cString key)).head? returned
  | _ => True

variable {queues : Queues} {returned : Returned} {key : Bytes} {s : Status} {errno : Errno} {reply : List Bytes}

theorem list_keeps (op : ListOp) : op.operation.requests.foldl act queues = queues := by
  cases op with
  | keys _ _ first last | scan _ _ first last | rscan _ _ first last | zkeys first last
  | zscan first last | zrscan first last =>
      cases first <;> cases last <;> rfl
  | hkeys name _ _ first last | hscan name _ _ first last | hrscan name _ _ first last =>
      cases name <;> cases first <;> cases last <;> rfl
  | hgetall name | zrange name | zrrange name => cases name <;> rfl
  | multiGet | multiHget | multiZget | qslice => rfl

theorem qpop_shows (value : Option Bytes) (clean : ∀ text ∈ value, 0 ∉ text) :
    Dictionary.ShowsText value ((DBSS.qpop key).result s errno (some (Store.found value))) := by
  cases value with
  | none => exact ⟨rfl, bufferText_single []⟩
  | some text => exact ⟨rfl, (bufferText_single text).trans (cString_of_clean (clean text rfl))⟩

/-- A call moves what it hands out from the front of its queue, and adds what it
pushes at the back. -/
theorem moves {api : Api} (shows : Shows queues returned api) (key : Bytes) :
    api.popped key returned ++ api.operation.requests.foldl act queues key =
      queues key ++ api.pushed key := by
  cases api with
  | qpush name val =>
      change Function.update queues (cString name) (queues (cString name) ++ [cString val]) key = _
      by_cases same : cString name = key
      · subst same
        simp [Api.pushed]
      · simp [Api.pushed, same, Function.update_of_ne (Ne.symm same)]
  | qpop name =>
      change _ ++ Function.update queues (cString name) (queues (cString name)).tail key = _
      by_cases same : cString name = key
      · subst same
        obtain ⟨ret, text⟩ := shows
        cases left : queues (cString name) with
        | nil =>
            rw [left] at ret
            simp [Api.pushed, Api.popped, ret]
        | cons value rest =>
            rw [left] at ret text
            simp [Api.pushed, Api.popped, ret, text]
      · simp [Api.pushed, Api.popped, same, Function.update_of_ne (Ne.symm same)]
  | list op => exact (congrFun (list_keeps op) key).trans (List.append_nil _).symm
  | _ => exact (List.append_nil _).symm

theorem clean_of_moved {calls : List ApiCall}
    (moved : ∀ key, poppedBy key calls ++ queues key = pushedBy key calls) (key : Bytes) :
    ∀ text ∈ queues key, 0 ∉ text := by
  intro text member
  have pushed : text ∈ pushedBy key calls := moved key ▸ List.mem_append_right _ member
  obtain ⟨made, _, inside⟩ := List.mem_flatMap.mp pushed
  cases api : made.api with
  | qpush name val =>
      simp only [api, Api.pushed] at inside
      split at inside
      · rw [List.mem_singleton.mp inside]
        exact clean_cString val
      · simp at inside
  | _ => simp [api, Api.pushed] at inside

end Queues

section Session

variable {server : Server} {this : DBSS} {host : Host} {calls : List Api} (lasting : Lasting server this host calls)
  (keeps : Keeps Queues.act Queues.Answers server.answer .empty [] (requestsOf calls))
  {earlier later : List ApiCall} {made : ApiCall}

/-- The queues as the server has them after these calls. -/
def queuesAfter (calls : List ApiCall) : Queues :=
  (requestsOf (calls.map ApiCall.api)).foldl Queues.act .empty

include lasting keeps

theorem session_next (split : this.session host calls = earlier ++ made :: later)
    (clean : ∀ key, ∀ text ∈ queuesAfter earlier key, 0 ∉ text) :
    ∃ call, made.run = .done call ∧ (queuesAfter earlier).Shows call.returned made.api := by
  cases api : made.api with
  | qpush key val =>
      obtain ⟨call, s, errno, reply, done, returned, answers⟩ :=
        lasting.keeps keeps split (congrArg (·.operation.requests) api)
      rw [api] at returned
      refine ⟨call, done, ?_⟩
      rw [returned]
      exact Dictionary.status_shows (answers rfl)
  | qpop key =>
      obtain ⟨call, s, errno, reply, done, returned, answers⟩ :=
        lasting.keeps keeps split (congrArg (·.operation.requests) api)
      rw [api] at returned
      refine ⟨call, done, ?_⟩
      rw [returned, show reply = _ from answers]
      exact Queues.qpop_shows _ fun text head => clean _ text (List.mem_of_mem_head? head)
  | _ =>
      obtain ⟨call, _, done, _⟩ := lasting.served split
      exact ⟨call, done, trivial⟩

/-- Over any number of calls, what was handed out of a queue and what is left of
it are what was added to it. -/
theorem session_moves (split : this.session host calls = earlier ++ later) (key : Bytes) :
    poppedBy key earlier ++ queuesAfter earlier key = pushedBy key earlier := by
  induction earlier using List.reverseRecOn generalizing later key with
  | nil => rfl
  | append_singleton front made ih =>
      rw [List.append_assoc, List.singleton_append] at split
      have before := ih split
      obtain ⟨call, done, shows⟩ := session_next lasting keeps split (Queues.clean_of_moved before)
      have moved := Queues.moves shows key
      have popped : made.popped key = made.api.popped key call.returned := by rw [ApiCall.popped, done]
      have after :
          queuesAfter (front ++ [made]) = made.api.operation.requests.foldl Queues.act (queuesAfter front) := by
        simp [queuesAfter, requestsOf]
      simp only [poppedBy, pushedBy, List.flatMap_append, List.flatMap_cons, List.flatMap_nil,
        List.append_nil] at before moved ⊢
      rw [after, popped, List.append_assoc, moved, ← List.append_assoc, before key]

/-- Whatever else a session does, over a connection that lasts its queues lose,
repeat and reorder nothing: every call returns, and a `qpop` hands out the oldest
element that was pushed and not yet handed out, or says that there is none. -/
theorem session_queues :
    (this.session host calls).map ApiCall.api = calls ∧
      ∀ earlier made later, this.session host calls = earlier ++ made :: later →
        ∃ left : Queues, (∀ key, poppedBy key earlier ++ left key = pushedBy key earlier) ∧
          ∃ call, made.run = .done call ∧ left.Shows call.returned made.api := by
  refine ⟨lasting.ready.makes_all, fun earlier made later split => ?_⟩
  have moved := session_moves lasting keeps split
  exact ⟨_, moved, session_next lasting keeps split (Queues.clean_of_moved moved)⟩

end Session

/-- A server that keeps queues and says `1` to everything but `qpop`. -/
def Server.queueing : Server :=
  .replying fun earlier request =>
    let queues := earlier.foldl Queues.act .empty
    if request.head? = some (ascii "qpop") then Store.found (queues (request.getD 1 [])).head?
    else [ascii "ok", ascii "1"]

def queueCalls : List Api :=
  [.qpush (ascii "q") (ascii "a"), .qpush (ascii "q") (ascii "b"), .qpop (ascii "q")]

theorem session_queues_three :
    (freshObject.session (freshHost .queueing) queueCalls).map ApiCall.api = queueCalls ∧
      ∀ earlier made later, freshObject.session (freshHost .queueing) queueCalls = earlier ++ made :: later →
        ∃ left : Queues, (∀ key, poppedBy key earlier ++ left key = pushedBy key earlier) ∧
          ∃ call, made.run = .done call ∧ left.Shows call.returned made.api := by
  apply session_queues (freshHost_lasting (by decide) (by decide +kernel) (by decide))
  exact ⟨by decide +kernel, by decide +kernel, by decide +kernel, trivial⟩

end Dbss
