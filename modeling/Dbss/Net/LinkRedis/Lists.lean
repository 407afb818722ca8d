import Dbss.Net.LinkRedis.State
import Dbss.Net.LinkRedis.Values
import Dbss.Ssdb.Lists

namespace Dbss.Net.RedisLink

open Dbss.Data Dbss.Util Dbss.Resp Dbss.Ssdb

/-! The Redis commands for lists, and what their translation means to a server
that keeps lists. -/

inductive ListCall where
  | lpush (key : Bytes) (items : List Bytes)
  | rpush (key : Bytes) (items : List Bytes)
  | lpop (key : Bytes)
  | rpop (key : Bytes)
  | llen (key : Bytes)
  | lindex (key : Bytes) (index : Int)
  | lset (key : Bytes) (index : Int) (val : Bytes)
  | lrange (key : Bytes) (first last : Int)

namespace ListCall

def word : ListCall → Bytes
  | lpush .. => ascii "lpush"
  | rpush .. => ascii "rpush"
  | lpop _ => ascii "lpop"
  | rpop _ => ascii "rpop"
  | llen _ => ascii "llen"
  | lindex .. => ascii "lindex"
  | lset .. => ascii "lset"
  | lrange .. => ascii "lrange"

def arguments : ListCall → List Bytes
  | lpush key items | rpush key items => key :: items
  | lpop key | rpop key | llen key => [key]
  | lindex key index => [key, str index]
  | lset key index val => [key, str index, val]
  | lrange key first last => [key, str first, str last]

/-- An index is a 64-bit integer, and a push has something to push. -/
def Fits : ListCall → Prop
  | lpush _ items | rpush _ items => items ≠ []
  | lindex _ index | lset _ index _ => IsInt64 index
  | lrange _ first last => IsInt64 first ∧ IsInt64 last
  | lpop _ | rpop _ | llen _ => True

/-- What the command does in Redis: LPUSH puts each element before the earlier ones. -/
def effect (lists : Lists) : ListCall → Lists
  | lpush key items => Function.update lists key (items.foldl (fun list item => item :: list) (lists key))
  | rpush key items => Function.update lists key (lists key ++ items)
  | lpop key => Function.update lists key (lists key).tail
  | rpop key => Function.update lists key (lists key).dropLast
  | lset key index val => Function.update lists key ((Lists.replaced (lists key) index val).getD (lists key))
  | llen _ | lindex .. | lrange .. => lists

/-- What the client is told; a push tells the new length. -/
def Replies (lists : Lists) : ListCall → Value → Prop
  | lpush key items, value | rpush key items, value => value = .number (str ((lists key).length + items.length : Nat))
  | lpop key, value => value = .entry (lists key).head?
  | rpop key, value => value = .entry (lists key).getLast?
  | llen key, value => value = .number (str (lists key).length)
  | lindex key index, value => value = .entry ((Lists.position (lists key).length index).bind ((lists key)[·]?))
  | lset key index val, value =>
      if (Lists.replaced (lists key) index val).isSome then value = .ok else ∃ message, value = .refused message
  | lrange key first last, value => value = .entries ((Lists.slice (lists key) first last).map some)

/-- The row of the command table. -/
def desc : ListCall → RedisRequestDesc
  | lpush .. => ⟨.auto, ascii "lpush", ascii "qpush_front", .int⟩
  | rpush .. => ⟨.auto, ascii "rpush", ascii "qpush_back", .int⟩
  | lpop _ => ⟨.auto, ascii "lpop", ascii "qpop_front", .bulk⟩
  | rpop _ => ⟨.auto, ascii "rpop", ascii "qpop_back", .bulk⟩
  | llen _ => ⟨.auto, ascii "llen", ascii "qsize", .int⟩
  | lindex .. => ⟨.auto, ascii "lindex", ascii "qget", .bulk⟩
  | lset .. => ⟨.auto, ascii "lset", ascii "qset", .status⟩
  | lrange .. => ⟨.auto, ascii "lrange", ascii "qslice", .multiBulk⟩

/-- The SSDB request that the call is translated to: only the name is another. -/
def request (call : ListCall) : List Bytes :=
  call.desc.ssdbCmd :: call.arguments

variable {call : ListCall} {args : List Bytes} {lists : Lists} {reply : List Bytes}

end ListCall

end Dbss.Net.RedisLink
