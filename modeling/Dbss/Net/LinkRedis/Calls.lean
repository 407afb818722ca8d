import Dbss.Net.LinkRedis.Counters
import Dbss.Net.LinkRedis.Lists
import Dbss.Net.LinkRedis.Meaning

namespace Dbss.Net.RedisLink

open Dbss.Data Dbss.Util Dbss.Resp Dbss.Ssdb

/-! The Redis commands for entries, counters and lists together, over one database. -/

inductive RedisCall where
  | entry (call : EntryCall)
  | count (call : CountCall)
  | list (call : ListCall)

namespace RedisCall

/-- What the call does in Redis. -/
def effect (database : Database) : RedisCall → Database
  | entry call => { database with store := call.effect database.store }
  | count call => { database with store := call.effect database.store }
  | list call => { database with lists := call.effect database.lists }

def Replies (database : Database) : RedisCall → Value → Prop
  | entry call, value => call.Replies database.store value
  | count call, value => call.Replies database.store value
  | list call, value => call.Replies database.lists value

/-- The SSDB request that the call is translated to. -/
def request : RedisCall → List Bytes
  | entry call => call.request
  | count call => call.request
  | list call => call.request

variable {call : RedisCall} {args : List Bytes} {database : Database} {reply : List Bytes}

end RedisCall

end Dbss.Net.RedisLink
