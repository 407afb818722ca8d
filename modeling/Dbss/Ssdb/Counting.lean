import Dbss.Ssdb.Keeper
import Dbss.Util.Conversion

namespace Dbss.Ssdb

open Dbss.Data Dbss.Util

/-! Counters: entries whose numbers a server adds to. -/

/-- The name of an entry that counts. -/
inductive Counter where
  | kv (key : Bytes)
  | hash (name key : Bytes)
  | zset (name key : Bytes)
deriving DecidableEq, Repr

namespace Counter

def entry (store : Store) : Counter → Option Bytes
  | kv key => store.kv key
  | hash name key => store.hash name key
  | zset name key => store.zset name key

def put (store : Store) (value : Bytes) : Counter → Store
  | kv key => { store with kv := Function.update store.kv key (some value) }
  | hash name key =>
      { store with hash := Function.update store.hash name (Function.update (store.hash name) key (some value)) }
  | zset name key =>
      { store with zset := Function.update store.zset name (Function.update (store.zset name) key (some value)) }

end Counter

namespace Store

/-- The 64-bit integer that a text is the numeral of. -/
def number (text : Bytes) : Option Int :=
  let value := (strToInt64 text .success).1
  if str value = text then some value else none

/-- A missing entry stands at 0. -/
def standsAt (entry : Option Bytes) : Option Int :=
  entry.elim (some 0) number

/-- A sum is a 64-bit integer, or there is none. -/
def sumOf (value : Option Int) (step : Int) : Option Int :=
  value.bind fun value => if IsInt64 (value + step) then some (value + step) else none

/-- The counter that a command names and what it adds, 1 if that is left out. -/
def increment : List Bytes → Option (Counter × Int)
  | [cmd, key] =>
      if cmd = ascii "incr" then some (.kv key, 1)
      else if cmd = ascii "decr" then some (.kv key, -1)
      else none
  | [cmd, key, step] =>
      if cmd = ascii "incr" then (number step).map fun step => (.kv key, step)
      else if cmd = ascii "decr" then (number step).map fun step => (.kv key, -step)
      else none
  | [cmd, name, key, step] =>
      if cmd = ascii "hincr" then (number step).map fun step => (.hash name key, step)
      else if cmd = ascii "zincr" then (number step).map fun step => (.zset name key, step)
      else none
  | _ => none

/-- The sum that a counter comes to, and the store with it. -/
def added (store : Store) (counter : Counter) (step : Int) : Option (Int × Store) :=
  (sumOf (standsAt (counter.entry store)) step).map fun sum => (sum, counter.put store (str sum))

def count (store : Store) (request : List Bytes) : Option (Int × Store) :=
  (increment request).bind fun counter => store.added counter.1 counter.2

def isCount (request : List Bytes) : Bool :=
  [ascii "incr", ascii "decr", ascii "hincr", ascii "zincr"].contains (request.headD [])

/-- Counting stores the sum, if there is one. -/
def actCounting (store : Store) (request : List Bytes) : Store :=
  (store.count request).elim (store.act request) Prod.snd

/-- The replies that say that nothing was done. -/
def refuses (reply : List Bytes) : Bool :=
  [ascii "error", ascii "fail", ascii "client_error"].contains (reply.headD [])

/-- A sum is told, and without one the command is refused. -/
def AnswersCounting (store : Store) (request reply : List Bytes) : Prop :=
  if isCount request then
    (∀ counted ∈ store.count request, reply = [ascii "ok", str counted.1]) ∧
      ((store.count request).isNone → refuses reply)
  else
    store.Answers request reply

instance (store : Store) (request reply : List Bytes) : Decidable (store.AnswersCounting request reply) :=
  inferInstanceAs (Decidable (ite _ _ _))

variable {store : Store} {request reply : List Bytes} {value : Option Int} {step sum : Int}

theorem increment_of_other (other : isCount request = false) : increment request = none := by
  simp only [isCount, List.contains_eq_mem, List.mem_cons, List.not_mem_nil, or_false, decide_eq_false_iff_not,
    not_or] at other
  obtain ⟨notIncr, notDecr, notHincr, notZincr⟩ := other
  unfold increment
  split
  · exact (if_neg notIncr).trans (if_neg notDecr)
  · exact (if_neg notIncr).trans (if_neg notDecr)
  · exact (if_neg notHincr).trans (if_neg notZincr)
  · rfl

theorem actCounting_of_other (other : isCount request = false) : store.actCounting request = store.act request := by
  rw [actCounting, count, increment_of_other other]
  rfl

theorem answersCounting_of_other (other : isCount request = false) :
    store.AnswersCounting request reply ↔ store.Answers request reply := by
  rw [AnswersCounting, other]
  exact Iff.rfl

theorem number_str (range : IsInt64 step) : number (str step) = some step := by
  have read : strToInt64 (str step) .success = (step, .success) :=
    IntType.InRange.parse_str (show IntType.int64.InRange step from range) .success
  simp [number, read]

theorem standsAt_score (score : Option Int) (range : ∀ value ∈ score, IsInt64 value) :
    standsAt (score.map str) = some (score.getD 0) := by
  cases score with
  | none => rfl
  | some score => exact number_str (range score rfl)

theorem sumOf_range (summed : sumOf value step = some sum) : IsInt64 sum := by
  obtain ⟨value, rfl, inside⟩ := Option.bind_eq_some_iff.mp summed
  split at inside
  · next range => exact Option.some.inj inside ▸ range
  · cases inside

theorem head_of_refuses (refused : refuses reply = true) : reply.head? ≠ some (ascii "ok") := by
  intro head
  rw [refuses, List.headD_eq_head?_getD, head] at refused
  exact absurd refused (by decide)

end Store

end Dbss.Ssdb
