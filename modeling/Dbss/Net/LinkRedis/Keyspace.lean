import Dbss.Net.LinkRedis.Calls

namespace Dbss.Net.RedisLink

open Dbss.Data Dbss.Util Dbss.Resp Dbss.Ssdb

/-! The keys of a Redis server, where a key has one value of one type, and what
an SSDB database with a space of keys for each type has to do with them. -/

inductive Kind where
  | string
  | hash
  | zset
  | list
deriving DecidableEq, Repr

/-- What a key holds.  A hash, a sorted set or a list with nothing in it does not exist. -/
inductive Item where
  | string (val : Bytes)
  | hash (fields : Bytes → Option Bytes) (occupied : fields ≠ fun _ => none)
  | zset (scores : Bytes → Option Bytes) (occupied : scores ≠ fun _ => none)
  | list (items : List Bytes) (occupied : items ≠ [])

namespace Item

def kind : Item → Kind
  | string _ => .string
  | hash .. => .hash
  | zset .. => .zset
  | list .. => .list

/-! What a key looks like to the commands of each type. -/

def val : Option Item → Option Bytes
  | some (string val) => some val
  | _ => none

def fields : Option Item → Bytes → Option Bytes
  | some (hash fields _) => fields
  | _ => fun _ => none

def scores : Option Item → Bytes → Option Bytes
  | some (zset scores _) => scores
  | _ => fun _ => none

def items : Option Item → List Bytes
  | some (list items _) => items
  | _ => []

/-! And what there is if the type has these values. -/

open Classical in
noncomputable def ofFields (fields : Bytes → Option Bytes) : Option Item :=
  if occupied : fields ≠ fun _ => none then some (hash fields occupied) else none

open Classical in
noncomputable def ofScores (scores : Bytes → Option Bytes) : Option Item :=
  if occupied : scores ≠ fun _ => none then some (zset scores occupied) else none

def ofItems (items : List Bytes) : Option Item :=
  if occupied : items ≠ [] then some (list items occupied) else none

end Item

/-- What a database has of one type under a key. -/
noncomputable def Kind.item (database : Database) (key : Bytes) : Kind → Option Item
  | string => (database.store.kv key).map .string
  | hash => Item.ofFields (database.store.hash key)
  | zset => Item.ofScores (database.store.zset key)
  | list => Item.ofItems (database.lists key)

abbrev Keyspace := Bytes → Option Item

namespace Keyspace

def empty : Keyspace :=
  fun _ => none

/-- Each type on its own. -/
def view (space : Keyspace) : Database where
  store := {
    kv := fun key => Item.val (space key)
    hash := fun name => Item.fields (space name)
    zset := fun name => Item.scores (space name) }
  lists := fun key => Item.items (space key)

end Keyspace

variable {key : Bytes} {item : Item} {space : Keyspace} {database other : Database} {call : RedisCall}

/-! ### Databases and their values -/

theorem Kind.item_kind {kind : Kind} (found : kind.item database key = some item) : item.kind = kind := by
  cases kind with
  | string =>
      obtain ⟨val, _, rfl⟩ := Option.map_eq_some_iff.mp found
      rfl
  | hash | zset | list =>
      simp only [Kind.item, Item.ofFields, Item.ofScores, Item.ofItems] at found
      split at found
      · cases found
        rfl
      · cases found

namespace RedisCall

/-- The type of the values that the call is about. -/
def kind : RedisCall → Kind
  | entry (.get _) | entry (.set ..) | entry (.mget _) | entry (.mset _) | entry (.del _) => .string
  | entry (.hget ..) | entry (.hset ..) | entry (.hmget ..) | entry (.hmset ..) | entry (.hdel ..) => .hash
  | entry (.zscore ..) | entry (.zadd ..) | entry (.zrem ..) => .zset
  | count (.incr _) | count (.decr _) | count (.incrby ..) | count (.decrby ..) => .string
  | count (.hincrby ..) => .hash
  | count (.zincrby ..) => .zset
  | list _ => .list

/-- The keys whose values the call may check or replace.  MGET does neither: a
key that is no string has no value for it. -/
def keys : RedisCall → List Bytes
  | entry (.mget _) => []
  | entry (.mset pairs) => pairs.map Prod.fst
  | entry (.del keys) => keys
  | entry (.get key) | entry (.set key _) | entry (.hget key _) | entry (.hset key ..)
  | entry (.hmget key _) | entry (.hmset key _) | entry (.hdel key _) | entry (.zscore key _)
  | entry (.zadd key _) | entry (.zrem key _) => [key]
  | count (.incr key) | count (.decr key) | count (.incrby key _) | count (.decrby key _) | count (.hincrby key ..)
  | count (.zincrby key ..) => [key]
  | list (.lpush key _) | list (.rpush key _) | list (.lpop key) | list (.rpop key) | list (.llen key)
  | list (.lindex key _) | list (.lset key ..) | list (.lrange key ..) => [key]

/-- SET, MSET and DEL do not care what a key holds. -/
def overwrites : RedisCall → Bool
  | entry (.set ..) | entry (.mset _) | entry (.del _) => true
  | _ => false

def WrongType (space : Keyspace) (call : RedisCall) : Prop :=
  call.overwrites = false ∧ ∃ key ∈ call.keys, ∃ item ∈ space key, item.kind ≠ call.kind

/-- The call names its keys as `kinds` has them. -/
def Names (kinds : Bytes → Kind) (call : RedisCall) : Prop :=
  ∀ key ∈ call.keys, kinds key = call.kind

instance (kinds : Bytes → Kind) (call : RedisCall) : Decidable (call.Names kinds) :=
  inferInstanceAs (Decidable (∀ key ∈ _, _))

end RedisCall

namespace Keyspace

open Classical in
/-- What the call does in Redis: nothing if a key holds a value of another type,
and else its keys hold what it makes of the values of its type. -/
noncomputable def effect (space : Keyspace) (call : RedisCall) : Keyspace :=
  if call.WrongType space then space
  else fun key => if call.keys.contains key then call.kind.item (call.effect space.view) key else space key

open Classical in
/-- What Redis replies to the call. -/
noncomputable def Replies (space : Keyspace) (call : RedisCall) (value : Value) : Prop :=
  if call.WrongType space then value = .wrongType else call.Replies space.view value

/-- Every key is used for one type. -/
def Kinded (kinds : Bytes → Kind) (space : Keyspace) : Prop :=
  ∀ key, ∀ item ∈ space key, item.kind = kinds key

variable {kinds : Bytes → Kind}

theorem Kinded.right (kinded : Kinded kinds space) (names : call.Names kinds) : ¬ call.WrongType space := by
  rintro ⟨_, key, member, item, held, other⟩
  exact other ((kinded key item held).trans (names key member))

theorem Kinded.replies (kinded : Kinded kinds space) (names : call.Names kinds) {value : Value} :
    space.Replies call value ↔ call.Replies space.view value := by
  rw [Replies, if_neg (kinded.right names)]

theorem Kinded.effect (kinded : Kinded kinds space) (names : call.Names kinds) : Kinded kinds (space.effect call) := by
  intro key item held
  rw [Keyspace.effect, if_neg (kinded.right names)] at held
  split at held
  · next named => exact (Kind.item_kind held).trans (names key (List.contains_iff_mem.mp named)).symm
  · exact kinded key item held

end Keyspace

end Dbss.Net.RedisLink
