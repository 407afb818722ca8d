import Dbss.Ssdb.Counting

namespace Dbss.Ssdb

open Dbss.Data Dbss.Util

/-! Lists that a server keeps beside its store. -/

abbrev Lists := Bytes → List Bytes

namespace Lists

def empty : Lists :=
  fun _ => []

/-- Where an index points, negative ones from behind. -/
def place (length : Nat) (index : Int) : Int :=
  if index < 0 then length + index else index

def position (length : Nat) (index : Int) : Option Nat :=
  if 0 ≤ place length index ∧ place length index < length then some (place length index).toNat else none

/-- The elements between two places, both included, as far as there are any. -/
def slice (items : List Bytes) (first last : Int) : List Bytes :=
  (items.take (place items.length last + 1).toNat).drop (place items.length first).toNat

/-- The list with another element at an index that it has. -/
def replaced (items : List Bytes) (index : Int) (val : Bytes) : Option (List Bytes) :=
  (position items.length index).map fun place => items.set place val

/-- What is pushed goes in one element after the other. -/
def act (lists : Lists) (request : List Bytes) : Lists :=
  let cmd := request.headD []
  let name := request.getD 1 []
  let args := request.drop 2
  let items := lists name
  if cmd = ascii "qpush_front" then Function.update lists name (args.reverse ++ items)
  else if cmd = ascii "qpush_back" then Function.update lists name (items ++ args)
  else if cmd = ascii "qpop_front" then Function.update lists name items.tail
  else if cmd = ascii "qpop_back" then Function.update lists name items.dropLast
  else if cmd = ascii "qset" then
    let set := (Store.number (args.getD 0 [])).bind fun index => replaced items index (args.getD 1 [])
    Function.update lists name (set.getD items)
  else lists

def isList (request : List Bytes) : Bool :=
  [ascii "qpush_front", ascii "qpush_back", ascii "qpop_front", ascii "qpop_back", ascii "qsize", ascii "qget",
    ascii "qset", ascii "qslice"].contains (request.headD [])

/-- A push and `qsize` tell the length, and an element that is not there cannot be set. -/
def Answers (lists : Lists) (request reply : List Bytes) : Prop :=
  let cmd := request.headD []
  let name := request.getD 1 []
  let args := request.drop 2
  let items := lists name
  let first := Store.number (args.getD 0 [])
  if cmd = ascii "qpop_front" then reply = Store.found items.head?
  else if cmd = ascii "qpop_back" then reply = Store.found items.getLast?
  else if cmd = ascii "qget" then
    reply = Store.found ((first.bind (position items.length)).bind (items[·]?))
  else if cmd = ascii "qset" then
    if (first.bind (position items.length)).isSome then reply.head? = some (ascii "ok") else Store.refuses reply
  else if cmd = ascii "qslice" then
    ∀ start ∈ first, ∀ last ∈ Store.number (args.getD 1 []), reply = ascii "ok" :: slice items start last
  else reply = [ascii "ok", str (lists.act request name).length]

instance (lists : Lists) (request reply : List Bytes) : Decidable (lists.Answers request reply) :=
  inferInstanceAs (Decidable (ite _ _ _))

/-- Such a reply, with the lists as they are before the request. -/
def reply (lists : Lists) (request : List Bytes) : List Bytes :=
  let cmd := request.headD []
  let args := request.drop 2
  let items := lists (request.getD 1 [])
  let first := Store.number (args.getD 0 [])
  if cmd = ascii "qpop_front" then Store.found items.head?
  else if cmd = ascii "qpop_back" then Store.found items.getLast?
  else if cmd = ascii "qget" then Store.found ((first.bind (position items.length)).bind (items[·]?))
  else if cmd = ascii "qset" then
    if (first.bind (position items.length)).isSome then [ascii "ok"] else [ascii "client_error"]
  else if cmd = ascii "qslice" then
    ascii "ok" :: slice items (first.getD 0) ((Store.number (args.getD 1 [])).getD 0)
  else [ascii "ok", str (lists.act request (request.getD 1 [])).length]

end Lists

/-- Entries, some of which count, and lists. -/
structure Database where
  store : Store
  lists : Lists

namespace Database

def empty : Database :=
  ⟨.empty, .empty⟩

def act (database : Database) (request : List Bytes) : Database :=
  ⟨database.store.actCounting request, database.lists.act request⟩

def Answers (database : Database) (request reply : List Bytes) : Prop :=
  if Lists.isList request then database.lists.Answers request reply else database.store.AnswersCounting request reply

instance (database : Database) (request reply : List Bytes) : Decidable (database.Answers request reply) :=
  inferInstanceAs (Decidable (ite _ _ _))

end Database

end Dbss.Ssdb
