import Dbss.Net.LinkRedis.Merge
import Dbss.Ssdb.Counting

namespace Dbss.Net.RedisLink

open Dbss.Data Dbss.Util Dbss.Resp Dbss.Ssdb

/-! What a Redis client is told by a reply. -/

/-- A reply, as a client reads it: `+OK`, a number as the server gave it, one
value or nil, several of these, or an error. -/
inductive Value where
  | ok
  | number (text : Bytes)
  | entry (value : Option Bytes)
  | entries (values : List (Option Bytes))
  | refused (message : Bytes)
  | wrongType
deriving DecidableEq, Repr

def Value.text : Value → Bytes
  | ok => ascii "+OK" ++ crlf
  | number text => ascii ":" ++ text ++ crlf
  | entry value => entryText value
  | entries values => lengthLine 42 values.length ++ values.flatMap entryText
  | refused message => ascii "-ERR " ++ message ++ crlf
  | wrongType => ascii "-WRONGTYPE Operation against a key holding the wrong kind of value" ++ crlf

/-- A whole number that Redis keeps as a score without rounding. -/
def IsScore (score : Int) : Prop :=
  -9007199254740992 ≤ score ∧ score ≤ 9007199254740992

instance (score : Int) : Decidable (IsScore score) :=
  inferInstanceAs (Decidable (_ ∧ _))

theorem IsScore.isInt64 {score : Int} (whole : IsScore score) : IsInt64 score := by
  unfold IsScore at whole
  unfold IsInt64
  omega

variable {link : RedisLink} {desc : RedisRequestDesc} {reply : List Bytes}

end Dbss.Net.RedisLink
