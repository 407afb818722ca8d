import Dbss.Net.LinkRedis.Pairs
import Dbss.Net.LinkRedis.Values
import Dbss.Ssdb.Keeper

namespace Dbss.Net.RedisLink

open Dbss.Data Dbss.Util Dbss.Resp Dbss.Ssdb

/-! What a Redis client means by its requests, and that their translation means
the same to a server that keeps a store. -/

/-- The Redis commands that read, write and delete entries. -/
inductive EntryCall where
  | get (key : Bytes)
  | set (key val : Bytes)
  | mget (keys : List Bytes)
  | mset (pairs : List (Bytes × Bytes))
  | del (keys : List Bytes)
  | hget (name key : Bytes)
  | hset (name key val : Bytes)
  | hmget (name : Bytes) (keys : List Bytes)
  | hmset (name : Bytes) (pairs : List (Bytes × Bytes))
  | hdel (name : Bytes) (keys : List Bytes)
  | zscore (name key : Bytes)
  | zadd (name : Bytes) (pairs : List (Bytes × Bytes))
  | zrem (name : Bytes) (keys : List Bytes)

namespace EntryCall

def word : EntryCall → Bytes
  | get _ => ascii "get"
  | set .. => ascii "set"
  | mget _ => ascii "mget"
  | mset _ => ascii "mset"
  | del _ => ascii "del"
  | hget .. => ascii "hget"
  | hset .. => ascii "hset"
  | hmget .. => ascii "hmget"
  | hmset .. => ascii "hmset"
  | hdel .. => ascii "hdel"
  | zscore .. => ascii "zscore"
  | zadd .. => ascii "zadd"
  | zrem .. => ascii "zrem"

/-- ZADD takes scores before members. -/
def arguments : EntryCall → List Bytes
  | get key => [key]
  | set key val => [key, val]
  | mget keys | del keys => keys
  | mset pairs => scoreMembers pairs
  | hget name key | zscore name key => [name, key]
  | hset name key val => [name, key, val]
  | hmget name keys | hdel name keys | zrem name keys => name :: keys
  | hmset name pairs | zadd name pairs => name :: scoreMembers pairs

/-- At least one key, field or pair is given, and scores are whole numbers. -/
def Fits : EntryCall → Prop
  | mget keys | del keys | hmget _ keys | hdel _ keys | zrem _ keys => keys ≠ []
  | mset pairs | hmset _ pairs => pairs ≠ []
  | zadd _ pairs => pairs ≠ [] ∧ ∀ pair ∈ pairs, ∃ score, IsScore score ∧ pair.1 = str score
  | get _ | set .. | hget .. | hset .. | zscore .. => True

/-- What the command does in Redis: of several pairs with one key the last counts. -/
def effect (store : Store) : EntryCall → Store
  | get _ | mget _ | hget .. | hmget .. | zscore .. => store
  | set key val => { store with kv := Function.update store.kv key (some val) }
  | mset pairs => { store with kv := assignAll store.kv pairs }
  | del keys => { store with kv := forget store.kv keys }
  | hset name key val =>
      { store with hash := Function.update store.hash name (Function.update (store.hash name) key (some val)) }
  | hmset name pairs => { store with hash := Function.update store.hash name (assignAll (store.hash name) pairs) }
  | hdel name keys => { store with hash := Function.update store.hash name (forget (store.hash name) keys) }
  | zadd name pairs =>
      { store with zset := Function.update store.zset name (assignAll (store.zset name) (pairs.map Prod.swap)) }
  | zrem name keys => { store with zset := Function.update store.zset name (forget (store.zset name) keys) }

/-- What the client is told.  The count of the entries a command changed is the server's. -/
def Replies (store : Store) : EntryCall → Value → Prop
  | get key, value => value = .entry (store.kv key)
  | mget keys, value => value = .entries (keys.map store.kv)
  | hget name key, value => value = .entry (store.hash name key)
  | hmget name keys, value => value = .entries (keys.map (store.hash name))
  | zscore name key, value => value = .entry (store.zset name key)
  | set .., value | mset _, value | hmset .., value => value = .ok
  | del _, value | hset .., value | hdel .., value | zadd .., value | zrem .., value =>
      ∃ text, value = .number text

/-- The SSDB request that the call is translated to. -/
def request : EntryCall → List Bytes
  | get key => [ascii "get", key]
  | set key val => [ascii "set", key, val]
  | mget keys => ascii "multi_get" :: keys
  | mset pairs => ascii "multi_set" :: scoreMembers pairs
  | del keys => ascii "multi_del" :: keys
  | hget name key => [ascii "hget", name, key]
  | hset name key val => [ascii "hset", name, key, val]
  | hmget name keys => ascii "multi_hget" :: name :: keys
  | hmset name pairs => ascii "multi_hset" :: name :: scoreMembers pairs
  | hdel name keys => ascii "multi_hdel" :: name :: keys
  | zscore name key => [ascii "zget", name, key]
  | zadd name pairs => ascii "multi_zset" :: name :: memberScores pairs
  | zrem name keys => ascii "multi_zdel" :: name :: keys

/-- The row of the command table. -/
def desc : EntryCall → RedisRequestDesc
  | get _ => ⟨.auto, ascii "get", ascii "get", .bulk⟩
  | set .. => ⟨.auto, ascii "set", ascii "set", .status⟩
  | mget _ => ⟨.mget, ascii "mget", ascii "multi_get", .multiBulk⟩
  | mset _ => ⟨.auto, ascii "mset", ascii "multi_set", .status⟩
  | del _ => ⟨.auto, ascii "del", ascii "multi_del", .int⟩
  | hget .. => ⟨.auto, ascii "hget", ascii "hget", .bulk⟩
  | hset .. => ⟨.auto, ascii "hset", ascii "hset", .int⟩
  | hmget .. => ⟨.hmget, ascii "hmget", ascii "multi_hget", .multiBulk⟩
  | hmset .. => ⟨.auto, ascii "hmset", ascii "multi_hset", .status⟩
  | hdel .. => ⟨.auto, ascii "hdel", ascii "multi_hdel", .int⟩
  | zscore .. => ⟨.auto, ascii "zscore", ascii "zget", .bulk⟩
  | zadd .. => ⟨.zadd, ascii "zadd", ascii "multi_zset", .int⟩
  | zrem .. => ⟨.auto, ascii "zrem", ascii "multi_zdel", .int⟩

variable {call : EntryCall} {args : List Bytes} {store : Store} {reply : List Bytes}

end EntryCall

end Dbss.Net.RedisLink
