import Dbss.Client.Numbers
import Dbss.Ssdb.Counting
import Dbss.Wrapper.Dictionary

namespace Dbss

open Dbss.Data Dbss.Util Dbss.Ssdb Dbss.Net

/-! A session that counts: its calls use a dictionary, and add to what is there. -/

/-- The counter of a call, and what the call adds to it. -/
def Api.counting : Api → Option (Counter × Int)
  | .incr key step => some (.kv (cString key), step)
  | .hincr name key step => some (.hash (cString name) (cString key), step)
  | .zincr name key step => some (.zset (cString name) (cString key), step)
  | _ => none

/-- The call that writes what a counting call comes to. -/
def Api.writing (sum : Int) : Api → Api
  | .incr key _ => .seti key sum
  | .hincr name key _ => .hset name key (str sum)
  | .zincr name key _ => .zset name key sum
  | api => api

/-- The calls on entries, and those that count; an increment is an `int64_t`. -/
def Api.OnCounters : Api → Prop
  | .incr _ step | .hincr _ _ step | .zincr _ _ step => IsInt64 step
  | api => api.OnEntries

namespace Dictionary

/-- The number at which a counter stands, if it is one. -/
def standsAt (dictionary : Dictionary) : Counter → Option Int
  | .kv key => Store.standsAt (dictionary.kv key)
  | .hash name key => Store.standsAt (dictionary.hash name key)
  | .zset name key => some ((dictionary.zset name key).getD 0)

/-- What a counting call comes to: the sum of the number that is there and its
increment, unless the entry is no number or the sum does not fit into 64 bits. -/
def sum (dictionary : Dictionary) (api : Api) : Option Int :=
  api.counting.bind fun counter => Store.sumOf (dictionary.standsAt counter.1) counter.2

/-- A counting call writes its sum; one that comes to none changes nothing. -/
def afterCounting (dictionary : Dictionary) (api : Api) : Dictionary :=
  (dictionary.sum api).elim (dictionary.after api) fun sum => dictionary.after (api.writing sum)

def afterCountingAll (dictionary : Dictionary) (calls : List Api) : Dictionary :=
  calls.foldl afterCounting dictionary

/-- A counting call hands out its sum, or fails. -/
def ShowsCounting (dictionary : Dictionary) (returned : Returned) (api : Api) : Prop :=
  if api.counting.isSome then
    returned.ret = (if (dictionary.sum api).isSome then 1 else 0) ∧ returned.num = dictionary.sum api
  else
    dictionary.Shows returned api

variable {dictionary : Dictionary} {api : Api} {counter : Counter} {step total : Int} {s : Status} {errno : Errno}
  {reply request : List Bytes}

theorem counting_of_entries (on : api.OnEntries) : api.counting = none := by
  cases api <;> first | rfl | cases on

theorem on_counters_cases (on : api.OnCounters) :
    (∃ counter step, api.counting = some (counter, step)) ∨ api.OnEntries := by
  cases api with
  | incr | hincr | zincr => exact .inl ⟨_, _, rfl⟩
  | _ => exact .inr on

theorem not_count_of_entries (on : api.OnEntries) (asked : api.operation.requests = [request]) :
    Store.isCount request = false := by
  cases api with
  | list op =>
      cases op with
      | multiGet | multiHget | multiZget => cases asked; rfl
      | _ => cases on
  | get | hget | zget | set | seti | multiSet | del | multiDel | hset | hdel | multiHset | multiHdel | zset | zdel
  | multiZset | multiZdel => cases asked; rfl
  | _ => cases on

theorem standsAt_entry (sound : dictionary.Sound) (counter : Counter) :
    Store.standsAt (counter.entry dictionary.store) = dictionary.standsAt counter := by
  cases counter with
  | kv | hash => rfl
  | zset name key => exact Store.standsAt_score _ (sound.zset name key)

theorem sum_range (summed : dictionary.sum api = some total) : IsInt64 total := by
  obtain ⟨_, _, inside⟩ := Option.bind_eq_some_iff.mp summed
  exact Store.sumOf_range inside

/-- The request of a counting call names its counter and its increment. -/
theorem increment_request (on : api.OnCounters) (counts : api.counting = some (counter, step))
    (asked : api.operation.requests = [request]) :
    Store.isCount request = true ∧ Store.increment request = some (counter, step) := by
  cases api with
  | incr | hincr | zincr =>
      cases asked
      cases counts
      exact ⟨rfl, congrArg (Option.map _) (Store.number_str on)⟩
  | _ => cases counts

/-- Writing a sum does to the store what it does to the dictionary. -/
theorem writing_store (counts : api.counting = some (counter, step)) (range : IsInt64 total) :
    counter.put dictionary.store (str total) = (dictionary.after (api.writing total)).store ∧
      (api.writing total).OnEntries := by
  have plain : cString (str total) = str total := cString_of_clean (clean_str total)
  cases api with
  | incr key step =>
      cases counts
      have same : (Counter.kv (cString key)).put dictionary.store (cString (str total)) =
        (dictionary.after (.seti key total)).store := @store_after dictionary (.seti key total) trivial
      rw [plain] at same
      exact ⟨same, trivial⟩
  | hincr name key step =>
      cases counts
      have same : (Counter.hash (cString name) (cString key)).put dictionary.store (cString (str total)) =
        (dictionary.after (.hset name key (str total))).store :=
        @store_after dictionary (.hset name key (str total)) trivial
      rw [plain] at same
      exact ⟨same, trivial⟩
  | zincr name key step =>
      cases counts
      exact ⟨@store_after dictionary (.zset name key total) range, range⟩
  | _ => cases counts

/-- The server comes to the sum that the dictionary has. -/
theorem count_store (sound : dictionary.Sound) (on : api.OnCounters) (counts : api.counting = some (counter, step))
    (asked : api.operation.requests = [request]) :
    dictionary.store.count request =
      (dictionary.sum api).map fun total => (total, (dictionary.after (api.writing total)).store) := by
  rw [Store.count, (increment_request on counts asked).2, Option.bind_some, Store.added, standsAt_entry sound,
    sum, counts, Option.bind_some]
  exact Option.map_congr fun total summed =>
    congrArg (Prod.mk total) (writing_store counts (Store.sumOf_range summed)).1

theorem asks_once_counting (on : api.OnCounters) : ∃ request, api.operation.requests = [request] := by
  rcases on_counters_cases on with ⟨_, _, counts⟩ | entries
  · cases api with
    | incr | hincr | zincr => exact ⟨_, rfl⟩
    | _ => cases counts
  · exact asks_once entries

/-- Without the sum a counting call is nothing to the store or the dictionary. -/
theorem uncounted (counts : api.counting = some (counter, step)) (asked : api.operation.requests = [request]) :
    dictionary.store.act request = dictionary.store ∧ dictionary.after api = dictionary := by
  cases api with
  | incr | hincr | zincr => cases asked; exact ⟨rfl, rfl⟩
  | _ => cases counts

/-- The requests of a call do to the store what the call does to the dictionary. -/
theorem store_afterCounting (sound : dictionary.Sound) (on : api.OnCounters) :
    api.operation.requests.foldl Store.actCounting dictionary.store = (dictionary.afterCounting api).store := by
  obtain ⟨request, asked⟩ := asks_once_counting on
  rw [asked, List.foldl_cons, List.foldl_nil, afterCounting]
  rcases on_counters_cases on with ⟨_, _, counts⟩ | entries
  · obtain ⟨same, unchanged⟩ := @uncounted dictionary _ _ _ _ counts asked
    rw [Store.actCounting, count_store sound on counts asked]
    cases dictionary.sum api with
    | none => exact same.trans (congrArg store unchanged.symm)
    | some total => rfl
  · have same := @store_after dictionary api entries
    rw [asked] at same
    rw [Store.actCounting_of_other (not_count_of_entries entries asked), sum, counting_of_entries entries]
    exact same

theorem Sound.afterCounting (sound : dictionary.Sound) (on : api.OnCounters) :
    (dictionary.afterCounting api).Sound := by
  rw [Dictionary.afterCounting]
  rcases on_counters_cases on with ⟨_, _, counts⟩ | entries
  · obtain ⟨request, asked⟩ := asks_once_counting on
    cases summed : dictionary.sum api with
    | none =>
        rw [Option.elim_none, (uncounted counts asked).2]
        exact sound
    | some total => exact sound.after (@writing_store dictionary _ _ _ _ counts (sum_range summed)).2
  · rw [sum, counting_of_entries entries]
    exact sound.after entries

theorem number_shows {req : List Bytes} {counted : Option Int} (range : ∀ total ∈ counted, IsInt64 total)
    (told : ∀ total ∈ counted, reply = [ascii "ok", str total])
    (refused : counted = none → Store.refuses reply = true) :
    ((int64Method (.int64 req)).result s errno (some reply)).ret = (if counted.isSome then 1 else 0) ∧
      ((int64Method (.int64 req)).result s errno (some reply)).num = counted := by
  cases counted with
  | none =>
      have nothing : ∀ text more, some reply ≠ some (ascii "ok" :: text :: more) := by
        intro text more same
        exact Store.head_of_refuses (refused rfl) (by rw [Option.some.inj same, List.head?_cons])
      obtain ⟨failed, unread⟩ := readInt64_none errno nothing
      refine ⟨?_, unread⟩
      change okResult (readInt64 (some reply) errno).status = 0
      rw [okResult, failed]
      rfl
  | some total =>
      have read := IntType.InRange.parse_str (show IntType.int64.InRange total from range total rfl) errno
      rw [told total rfl]
      exact ⟨rfl, congrArg some (congrArg Prod.fst read)⟩

theorem shows_of_counting (sound : dictionary.Sound) (on : api.OnCounters)
    (asked : api.operation.requests = [request]) (answers : dictionary.store.AnswersCounting request reply) :
    dictionary.ShowsCounting (api.operation.result s errno (some reply)) api := by
  rw [ShowsCounting]
  rcases on_counters_cases on with ⟨_, _, counts⟩ | entries
  · rw [if_pos (by rw [counts]; rfl)]
    rw [Store.AnswersCounting, if_pos (increment_request on counts asked).1,
      count_store sound on counts asked] at answers
    obtain ⟨told, refused⟩ := answers
    have shows (req : List Bytes) := @number_shows s errno reply req (dictionary.sum api) (fun total => sum_range)
      (fun total summed => told _ (Option.mem_map_of_mem _ summed)) (fun none => refused (by simp [none]))
    cases api with
    | incr | hincr | zincr => exact shows _
    | _ => cases counts
  · rw [if_neg (by simp [counting_of_entries entries])]
    exact shows_of_answer sound entries asked
      ((Store.answersCounting_of_other (not_count_of_entries entries asked)).mp answers)

/-- The dictionary and its counters that a server's store is to a program. -/
def countingView : View Store Dictionary Store.actCounting where
  state := store
  after := afterCounting
  Sound := Sound
  On := Api.OnCounters
  asks_once := asks_once_counting
  sound_after := Sound.afterCounting
  state_after := store_afterCounting

end Dictionary

/-- Against a server that counts, over a connection that lasts, a session is a
session with a dictionary of counters: every call returns, no increment is lost
or made twice, each is told the sum, and one that would leave the 64-bit range
or meets no number fails and changes nothing. -/
theorem session_counts {server : Server} {this : DBSS} {host : Host} {calls : List Api}
    (lasting : Lasting server this host calls) (on : ∀ api ∈ calls, api.OnCounters)
    (keeps : Keeps Store.actCounting Store.AnswersCounting server.answer .empty [] (requestsOf calls)) :
    (this.session host calls).map ApiCall.api = calls ∧
      ∀ earlier made later, this.session host calls = earlier ++ made :: later → ∃ call, made.run = .done call ∧
        (Dictionary.empty.afterCountingAll (earlier.map ApiCall.api)).ShowsCounting call.returned made.api := by
  refine ⟨lasting.ready.makes_all, fun earlier made later split => ?_⟩
  obtain ⟨call, s, errno, request, reply, done, asked, returned, sound, here, answers⟩ :=
    Dictionary.countingView.answered lasting Dictionary.Sound.empty on keeps split
  refine ⟨call, done, ?_⟩
  rw [returned]
  exact Dictionary.shows_of_counting sound here asked answers

/-- A server that counts, and says `1` to every other change. -/
def Server.counting : Server :=
  .replying fun earlier request =>
    let store := earlier.foldl Store.actCounting .empty
    if Store.isCount request then
      (store.count request).elim [ascii "error"] fun counted => [ascii "ok", str counted.1]
    else if Store.readsEntries request then store.answer request
    else [ascii "ok", ascii "1"]

/-- The second increment leaves the range, so it is not made. -/
def countingCalls : List Api :=
  [.incr (ascii "n") 9223372036854775806, .incr (ascii "n") 2, .incr (ascii "n") 1]

theorem session_counts_three :
    (freshObject.session (freshHost .counting) countingCalls).map ApiCall.api = countingCalls ∧
      ∀ earlier made later, freshObject.session (freshHost .counting) countingCalls = earlier ++ made :: later →
        ∃ call, made.run = .done call ∧
          (Dictionary.empty.afterCountingAll (earlier.map ApiCall.api)).ShowsCounting call.returned made.api := by
  apply session_counts (freshHost_lasting (by decide) (by decide +kernel) (by decide))
  · simp [countingCalls, Api.OnCounters, IsInt64]
  · exact ⟨by decide +kernel, by decide +kernel, by decide +kernel, trivial⟩

end Dbss
