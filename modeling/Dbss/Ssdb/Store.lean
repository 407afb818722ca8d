import Dbss.Util.Strings
import Dbss.Data.OrderedMap

namespace Dbss.Ssdb

open Dbss.Data Dbss.Util

/-! What an SSDB server keeps and does, as far as the commands of the client
go: an abstract model, not a translation of server code. -/

/-- The three kinds of entries, each text by text. -/
structure Store where
  kv : Bytes → Option Bytes
  hash : Bytes → Bytes → Option Bytes
  zset : Bytes → Bytes → Option Bytes

def Store.empty : Store :=
  ⟨fun _ => none, fun _ _ => none, fun _ _ => none⟩

def pairUp : List Bytes → List (Bytes × Bytes)
  | key :: value :: rest => (key, value) :: pairUp rest
  | _ => []

theorem pairUp_flatMap (entries : List (Bytes × Bytes)) :
    pairUp (entries.flatMap fun entry => [entry.1, entry.2]) = entries := by
  induction entries with
  | nil => rfl
  | cons entry rest ih => exact congrArg (entry :: ·) ih

def assignNamed (entries : Bytes → Bytes → Option Bytes) (name : Bytes) (pairs : List (Bytes × Bytes)) :
    Bytes → Bytes → Option Bytes :=
  Function.update entries name (assignAll (entries name) pairs)

theorem assignNamed_nil (entries : Bytes → Bytes → Option Bytes) (name : Bytes) :
    assignNamed entries name [] = entries :=
  Function.update_eq_self name entries

theorem assignNamed_cons (entries : Bytes → Bytes → Option Bytes) (name : Bytes)
    (pair : Bytes × Bytes) (rest : List (Bytes × Bytes)) :
    assignNamed (assignNamed entries name [pair]) name rest = assignNamed entries name (pair :: rest) := by
  simp [assignNamed, assignAll]

theorem assignNamed_inj {entries : Bytes → Bytes → Option Bytes} {name : Bytes}
    {left right : List (Bytes × Bytes)} :
    assignNamed entries name left = assignNamed entries name right ↔
      assignAll (entries name) left = assignAll (entries name) right :=
  (Function.update_injective entries name).eq_iff

namespace Store

/-- The writing commands make their assignments in the order of the request. -/
def write (store : Store) : List Bytes → Store
  | cmd :: name :: rest =>
      if cmd = ascii "set" ∨ cmd = ascii "multi_set" then
        { store with kv := assignAll store.kv (pairUp (name :: rest)) }
      else if cmd = ascii "hset" ∨ cmd = ascii "multi_hset" then
        { store with hash := assignNamed store.hash name (pairUp rest) }
      else if cmd = ascii "zset" ∨ cmd = ascii "multi_zset" then
        { store with zset := assignNamed store.zset name (pairUp rest) }
      else
        store
  | _ => store

def writeAll (store : Store) (requests : List (List Bytes)) : Store :=
  requests.foldl write store

/-- Requests that each make one assignment make them all, one after the other. -/
theorem writeAll_each {request : Bytes × Bytes → List Bytes}
    {assigned : Store → List (Bytes × Bytes) → Store} (none : ∀ store, assigned store [] = store)
    (one : ∀ store pair rest, assigned (store.write (request pair)) rest = assigned store (pair :: rest))
    (store : Store) (pairs : List (Bytes × Bytes)) :
    store.writeAll (pairs.map request) = assigned store pairs := by
  induction pairs generalizing store with
  | nil => exact (none store).symm
  | cons pair rest ih => exact (ih (store.write (request pair))).trans (one store pair rest)

theorem writeAll_set (store : Store) (pairs : List (Bytes × Bytes)) :
    store.writeAll (pairs.map fun pair => [ascii "set", pair.1, pair.2]) =
      { store with kv := assignAll store.kv pairs } := by
  apply writeAll_each
  · intro store
    rfl
  · intro store pair rest
    rfl

theorem writeAll_hset (store : Store) (name : Bytes) (pairs : List (Bytes × Bytes)) :
    store.writeAll (pairs.map fun pair => [ascii "hset", name, pair.1, pair.2]) =
      { store with hash := assignNamed store.hash name pairs } := by
  apply writeAll_each
  · intro store
    rw [assignNamed_nil]
  · intro store pair rest
    rw [← assignNamed_cons]
    rfl

theorem writeAll_zset (store : Store) (name : Bytes) (pairs : List (Bytes × Bytes)) :
    store.writeAll (pairs.map fun pair => [ascii "zset", name, pair.1, pair.2]) =
      { store with zset := assignNamed store.zset name pairs } := by
  apply writeAll_each
  · intro store
    rw [assignNamed_nil]
  · intro store pair rest
    rw [← assignNamed_cons]
    rfl

/-- One entry, or word that there is none. -/
def found : Option Bytes → List Bytes
  | some value => [ascii "ok", value]
  | none => [ascii "not_found"]

/-- The keys that have a value, each followed by it, in the order asked for. -/
def foundPairs (entries : Bytes → Option Bytes) (keys : List Bytes) : List Bytes :=
  keys.flatMap fun key => ((entries key).map fun value => [key, value]).getD []

def answer (store : Store) : List Bytes → List Bytes
  | cmd :: args =>
      if cmd = ascii "multi_get" then ascii "ok" :: foundPairs store.kv args
      else
        match args with
        | name :: rest =>
            if cmd = ascii "get" then found (store.kv name)
            else if cmd = ascii "hget" then found (store.hash name (rest.headD []))
            else if cmd = ascii "zget" then found (store.zset name (rest.headD []))
            else if cmd = ascii "multi_hget" then ascii "ok" :: foundPairs (store.hash name) rest
            else if cmd = ascii "multi_zget" then ascii "ok" :: foundPairs (store.zset name) rest
            else [ascii "client_error"]
        | [] => [ascii "client_error"]
  | [] => [ascii "client_error"]

end Store

end Dbss.Ssdb
