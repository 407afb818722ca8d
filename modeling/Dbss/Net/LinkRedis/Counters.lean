import Dbss.Net.LinkRedis.State
import Dbss.Net.LinkRedis.Values

namespace Dbss.Net.RedisLink

open Dbss.Data Dbss.Util Dbss.Resp Dbss.Ssdb

/-! The Redis commands that count, and what their translation means to a server
that counts. -/

inductive CountCall where
  | incr (key : Bytes)
  | decr (key : Bytes)
  | incrby (key : Bytes) (step : Int)
  | decrby (key : Bytes) (step : Int)
  | hincrby (name key : Bytes) (step : Int)
  | zincrby (name : Bytes) (step : Int) (key : Bytes)

namespace CountCall

def word : CountCall → Bytes
  | incr _ => ascii "incr"
  | decr _ => ascii "decr"
  | incrby .. => ascii "incrby"
  | decrby .. => ascii "decrby"
  | hincrby .. => ascii "hincrby"
  | zincrby .. => ascii "zincrby"

/-- ZINCRBY takes the increment before the member. -/
def arguments : CountCall → List Bytes
  | incr key | decr key => [key]
  | incrby key step | decrby key step => [key, str step]
  | hincrby name key step => [name, key, str step]
  | zincrby name step key => [name, str step, key]

/-- An increment is a 64-bit integer, and so is what DECRBY adds. -/
def Fits : CountCall → Prop
  | incr _ | decr _ => True
  | incrby _ step | hincrby _ _ step => IsInt64 step
  | decrby _ step => IsInt64 step ∧ IsInt64 (-step)
  | zincrby _ step _ => IsScore step

def counter : CountCall → Counter
  | incr key | decr key | incrby key _ | decrby key _ => .kv key
  | hincrby name key _ => .hash name key
  | zincrby name _ key => .zset name key

def step : CountCall → Int
  | incr _ => 1
  | decr _ => -1
  | incrby _ step | hincrby _ _ step | zincrby _ step _ => step
  | decrby _ step => -step

/-- The sum is stored, if there is one. -/
def effect (store : Store) (call : CountCall) : Store :=
  (store.added call.counter call.step).elim store Prod.snd

/-- The sum, which ZINCRBY tells as a score. -/
def total (sum : Int) : CountCall → Value
  | zincrby .. => .entry (some (str sum))
  | _ => .number (str sum)

/-- The client is told the sum, or that there is none. -/
def Replies (store : Store) (call : CountCall) (value : Value) : Prop :=
  match store.added call.counter call.step with
  | some (sum, _) => value = call.total sum
  | none => ∃ message, value = .refused message

/-- The SSDB request that the call is translated to. -/
def request : CountCall → List Bytes
  | incr key => [ascii "incr", key]
  | decr key => [ascii "decr", key]
  | incrby key step => [ascii "incr", key, str step]
  | decrby key step => [ascii "decr", key, str step]
  | hincrby name key step => [ascii "hincr", name, key, str step]
  | zincrby name step key => [ascii "zincr", name, key, str step]

/-- The row of the command table. -/
def desc : CountCall → RedisRequestDesc
  | incr _ => ⟨.auto, ascii "incr", ascii "incr", .int⟩
  | decr _ => ⟨.auto, ascii "decr", ascii "decr", .int⟩
  | incrby .. => ⟨.auto, ascii "incrby", ascii "incr", .int⟩
  | decrby .. => ⟨.auto, ascii "decrby", ascii "decr", .int⟩
  | hincrby .. => ⟨.auto, ascii "hincrby", ascii "hincr", .int⟩
  | zincrby .. => ⟨.zincrby, ascii "zincrby", ascii "zincr", .bulk⟩

variable {call : CountCall} {args : List Bytes} {store : Store} {reply : List Bytes}

/-- The server counts what the call means. -/
theorem increment_request (fits : call.Fits) : Store.increment call.request = some (call.counter, call.step) := by
  cases call with
  | incr | decr => rfl
  | incrby | hincrby => exact congrArg (Option.map _) (Store.number_str fits)
  | decrby => exact congrArg (Option.map _) (Store.number_str fits.1)
  | zincrby => exact congrArg (Option.map _) (Store.number_str fits.isInt64)

end CountCall

end Dbss.Net.RedisLink
