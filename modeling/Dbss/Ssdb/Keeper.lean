import Dbss.Client.Server
import Dbss.Data.Entries
import Dbss.Data.Keeping
import Dbss.Ssdb.Store

namespace Dbss.Ssdb

open Dbss.Data Dbss.Util

/-! A server that keeps a store, over the requests of one connection. -/

namespace Store

/-- The deleting commands. -/
def erase (store : Store) : List Bytes → Store
  | cmd :: name :: rest =>
      if cmd = ascii "del" ∨ cmd = ascii "multi_del" then
        { store with kv := forget store.kv (name :: rest) }
      else if cmd = ascii "hdel" ∨ cmd = ascii "multi_hdel" then
        { store with hash := Function.update store.hash name (forget (store.hash name) rest) }
      else if cmd = ascii "zdel" ∨ cmd = ascii "multi_zdel" then
        { store with zset := Function.update store.zset name (forget (store.zset name) rest) }
      else
        store
  | _ => store

/-- A command writes, deletes or does neither. -/
def act (store : Store) (request : List Bytes) : Store :=
  (store.write request).erase request

theorem act_multi_set (store : Store) (entries : List (Bytes × Bytes)) :
    store.act (ascii "multi_set" :: entries.flatMap fun entry => [entry.1, entry.2]) =
      { store with kv := assignAll store.kv entries } := by
  cases entries with
  | nil => rfl
  | cons entry rest =>
      exact congrArg (fun pairs => { store with kv := assignAll store.kv pairs }) (pairUp_flatMap (entry :: rest))

theorem act_multi_del (store : Store) (keys : List Bytes) :
    store.act (ascii "multi_del" :: keys) = { store with kv := forget store.kv keys } := by
  cases keys with
  | nil => simp [act, write, erase]
  | cons key rest => rfl

/-- The commands that only read entries out. -/
def readsEntries (request : List Bytes) : Bool :=
  [ascii "get", ascii "hget", ascii "zget", ascii "multi_get", ascii "multi_hget", ascii "multi_zget"].contains
    (request.headD [])

/-- The store is read out, and a change is answered with `ok`. -/
def Answers (store : Store) (request reply : List Bytes) : Prop :=
  if readsEntries request then reply = store.answer request else reply.head? = some (ascii "ok")

instance (store : Store) (request reply : List Bytes) : Decidable (store.Answers request reply) :=
  inferInstanceAs (Decidable (ite _ _ _))

/-- Over these requests the answers are those of a server that keeps a store. -/
abbrev Kept (answer : List (List Bytes) → List Bytes → List Bytes) (store : Store) (earlier : List (List Bytes)) :
    List (List Bytes) → Prop :=
  Keeps act Answers answer store earlier

end Store

end Dbss.Ssdb

namespace Dbss

open Dbss.Util Dbss.Ssdb Dbss.Net

/-- A server that gives these replies, as far as they can be sent. -/
def Server.replying (reply : List (List Bytes) → List Bytes → List Bytes) : Server where
  limit := maxPacketSize
  received := Server.echo.received
  answer earlier request :=
    let packet := reply earlier request
    if packet ≠ [] ∧ (encode packet).length ≤ maxPacketSize then packet else [[]]
  receives := Server.echo.receives
  legal earlier request := by
    simp only
    split
    · next legal => exact legal
    · exact ⟨by simp, by decide⟩

/-- A server that keeps a store and says `1` to every change. -/
def Server.keeper : Server :=
  .replying fun earlier request =>
    if Store.readsEntries request then (earlier.foldl Store.act .empty).answer request else [ascii "ok", ascii "1"]

end Dbss
