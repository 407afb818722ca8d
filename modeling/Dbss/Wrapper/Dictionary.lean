import Dbss.Ssdb.Keeper
import Dbss.Util.Conversion
import Dbss.Wrapper.Batch
import Dbss.Wrapper.Lasting

namespace Dbss

open Dbss.Data Dbss.Util Dbss.Ssdb Dbss.Net

/-! What the library is for: the calls of a program read and change a
dictionary, as if it were in the program's own memory. -/

structure Dictionary where
  kv : Bytes → Option Bytes
  hash : Bytes → Bytes → Option Bytes
  zset : Bytes → Bytes → Option Int

/-- The calls that read, write and delete entries; a score is an `int64_t`. -/
def Api.OnEntries : Api → Prop
  | .get _ | .set .. | .seti .. | .del _ | .multiSet _ | .multiDel _ | .hget .. | .hset .. | .hdel ..
  | .multiHset .. | .multiHdel .. | .zget .. | .zdel .. | .multiZdel .. => True
  | .list op =>
      match op with
      | .multiGet .. | .multiHget .. | .multiZget .. => True
      | _ => False
  | .zset _ _ score => IsInt64 score
  | .multiZset _ kss => ∀ pair ∈ kss.pairs, IsInt64 pair.2
  | _ => False

namespace Dictionary

def empty : Dictionary :=
  ⟨fun _ => none, fun _ _ => none, fun _ _ => none⟩

/-- What a call leaves.  Names, keys and values are C strings; of the pairs
with one key the first counts. -/
def after (dictionary : Dictionary) : Api → Dictionary
  | .set key val => { dictionary with kv := putAll dictionary.kv [(cString key, cString val)] }
  | .seti key val => { dictionary with kv := putAll dictionary.kv [(cString key, str val)] }
  | .multiSet kvs => { dictionary with kv := putAll dictionary.kv kvs.pairs }
  | .del key => { dictionary with kv := forget dictionary.kv [cString key] }
  | .multiDel array => { dictionary with kv := forget dictionary.kv array.keys }
  | .hset name key val =>
      { dictionary with
        hash := Function.update dictionary.hash (cString name)
          (putAll (dictionary.hash (cString name)) [(cString key, cString val)]) }
  | .multiHset name kvs =>
      { dictionary with
        hash := Function.update dictionary.hash (cString name) (putAll (dictionary.hash (cString name)) kvs.pairs) }
  | .hdel name key =>
      { dictionary with
        hash := Function.update dictionary.hash (cString name) (forget (dictionary.hash (cString name)) [cString key]) }
  | .multiHdel name array =>
      { dictionary with
        hash := Function.update dictionary.hash (cString name) (forget (dictionary.hash (cString name)) array.keys) }
  | .zset name key score =>
      { dictionary with
        zset := Function.update dictionary.zset (cString name)
          (putAll (dictionary.zset (cString name)) [(cString key, score)]) }
  | .multiZset name kss =>
      { dictionary with
        zset := Function.update dictionary.zset (cString name) (putAll (dictionary.zset (cString name)) kss.pairs) }
  | .zdel name key =>
      { dictionary with
        zset := Function.update dictionary.zset (cString name) (forget (dictionary.zset (cString name)) [cString key]) }
  | .multiZdel name array =>
      { dictionary with
        zset := Function.update dictionary.zset (cString name) (forget (dictionary.zset (cString name)) array.keys) }
  | _ => dictionary

def afterAll (dictionary : Dictionary) (calls : List Api) : Dictionary :=
  calls.foldl after dictionary

/-- The texts of the list that a call hands out. -/
def texts (returned : Returned) : List Bytes :=
  (returned.vec.elim [] Vec.cells).map Cell.text

/-- A call that hands out one value shows this one. -/
def ShowsText (value : Option Bytes) (returned : Returned) : Prop :=
  returned.ret = (if value.isSome then 1 else 0) ∧ bufferText returned.writes = value.getD []

/-- A call for several keys shows those that have a value. -/
def ShowsPairs (entries : Bytes → Option Bytes) (keys : List Bytes) (returned : Returned) : Prop :=
  returned.ret = 1 ∧ texts returned = Store.foundPairs entries keys

/-- What a call returns and hands out.  `DBSS_get` shows values that fit into
its local buffer; lists and other values are what the calls copy, whether or
not the memory they copy it to is large enough. -/
def Shows (dictionary : Dictionary) (returned : Returned) : Api → Prop
  | .get key =>
      let value := (dictionary.kv (cString key)).getD []
      returned.ret = 1 ∧ (value.length + 2 ≤ dbssGetBuffer → bufferText returned.writes = value)
  | .hget name key => ShowsText (dictionary.hash (cString name) (cString key)) returned
  | .zget name key =>
      let score := dictionary.zset (cString name) (cString key)
      returned.ret = (if score.isSome then 1 else 0) ∧ returned.num = score
  | .list (.multiGet array _) => ShowsPairs dictionary.kv array.keys returned
  | .list (.multiHget name array _) => ShowsPairs (dictionary.hash (cString name)) array.keys returned
  | .list (.multiZget name array _) =>
      ShowsPairs (formed str (dictionary.zset (cString name))) array.keys returned
  | _ => returned.ret = 1

/-- The store that has the entries, with scores as texts. -/
def store (dictionary : Dictionary) : Store :=
  ⟨dictionary.kv, dictionary.hash, fun name => formed str (dictionary.zset name)⟩

/-- Values are C strings, and scores are 64-bit integers. -/
structure Sound (dictionary : Dictionary) : Prop where
  kv : Everywhere (0 ∉ ·) dictionary.kv
  hash : ∀ name, Everywhere (0 ∉ ·) (dictionary.hash name)
  zset : ∀ name, Everywhere IsInt64 (dictionary.zset name)

variable {dictionary : Dictionary} {api : Api} {ν : Type}

theorem put_single (entries : Bytes → Option Bytes) (key value : Bytes) :
    assignAll entries [(key, value)] = putAll entries [(key, value)] := by
  simpa using assignAll_single id entries key value

theorem put_ofPairs (entries : Bytes → Option Bytes) (pairs : List (Bytes × Bytes)) :
    assignAll entries (OrderedMap.ofPairs pairs).entries = putAll entries pairs := by
  simpa using assignAll_ofPairs id entries pairs

theorem store_kv (dictionary : Dictionary) {left right : Bytes → Option Bytes} (same : left = right) :
    { dictionary.store with kv := left } = { dictionary with kv := right : Dictionary }.store := by
  rw [same]
  rfl

theorem store_hash (dictionary : Dictionary) (name : Bytes) {left right : Bytes → Option Bytes} (same : left = right) :
    { dictionary.store with hash := Function.update dictionary.store.hash name left } =
      { dictionary with hash := Function.update dictionary.hash name right : Dictionary }.store := by
  rw [same]
  rfl

theorem store_zset (dictionary : Dictionary) (name : Bytes) {texts : Bytes → Option Bytes}
    {scores : Bytes → Option Int} (same : texts = formed str scores) :
    { dictionary.store with zset := Function.update dictionary.store.zset name texts } =
      { dictionary with zset := Function.update dictionary.zset name scores : Dictionary }.store := by
  rw [same]
  simp only [store, formed_update]

/-- The requests of a call do to the store what the call does to the dictionary. -/
theorem store_after (on : api.OnEntries) :
    api.operation.requests.foldl Store.act dictionary.store = (dictionary.after api).store := by
  cases api with
  | get | hget | zget => rfl
  | set key val => exact store_kv dictionary (put_single _ _ _)
  | seti key val =>
      refine store_kv dictionary (put_single _ _ _) |>.trans ?_
      rw [cString_of_clean (clean_str val)]
      rfl
  | multiSet kvs => exact (Store.act_multi_set _ _).trans (store_kv dictionary (put_ofPairs _ _))
  | del key => rfl
  | multiDel array => exact Store.act_multi_del dictionary.store array.keys
  | hset name key val => exact store_hash dictionary (cString name) (put_single _ _ _)
  | multiHset name kvs =>
      have flat := pairUp_flatten (OrderedMap.ofPairs kvs.pairs).entries
      exact store_hash dictionary (cString name) ((congrArg (assignAll _) flat).trans (put_ofPairs _ _))
  | hdel name key => rfl
  | multiHdel name array => rfl
  | zset name key score => exact store_zset dictionary (cString name) (assignAll_single _ _ _ _)
  | multiZset name kss =>
      have flat := pairUp_flatten ((OrderedMap.ofPairs kss.pairs).entries.map fun entry => (entry.1, str entry.2))
      exact store_zset dictionary (cString name) ((congrArg (assignAll _) flat).trans (assignAll_ofPairs _ _ _))
  | zdel name key => exact store_zset dictionary (cString name) (forget_formed _ _ _)
  | multiZdel name array => exact store_zset dictionary (cString name) (forget_formed _ _ _)
  | list op =>
      cases op with
      | multiGet array =>
          change dictionary.store.act (ascii "multi_get" :: array.keys) = _
          cases array.keys <;> rfl
      | multiHget name array => rfl
      | multiZget name array => rfl
      | _ => cases on
  | _ => cases on

theorem Sound.named {named : Bytes → Bytes → Option ν} {holds : ν → Prop} (all : ∀ name, Everywhere holds (named name))
    {entries : Bytes → Option ν} (changed : Everywhere holds entries) (name : Bytes) :
    ∀ other, Everywhere holds (Function.update named name entries other) := by
  intro other
  by_cases same : other = name
  · subst same
    simpa using changed
  · simpa [Function.update_of_ne same] using all other

theorem Sound.empty : Sound empty :=
  ⟨nofun, nofun, nofun⟩

/-- A call leaves C strings and 64-bit scores. -/
theorem Sound.after (sound : dictionary.Sound) (on : api.OnEntries) : (dictionary.after api).Sound := by
  obtain ⟨kv, hash, zset⟩ := sound
  have clean (kvs : KvArray) : ∀ pair ∈ kvs.pairs, 0 ∉ pair.2 := fun pair member =>
    cString_eq_self_iff.mp (collect_clean pair member).2
  cases api with
  | set key val => exact ⟨kv.putAll (by simp [clean_cString]), hash, zset⟩
  | seti key val => exact ⟨kv.putAll (by simp [clean_str]), hash, zset⟩
  | multiSet kvs => exact ⟨kv.putAll (clean kvs), hash, zset⟩
  | del key => exact ⟨kv.forget _, hash, zset⟩
  | multiDel array => exact ⟨kv.forget _, hash, zset⟩
  | hset name key val => exact ⟨kv, Sound.named hash ((hash _).putAll (by simp [clean_cString])) _, zset⟩
  | multiHset name kvs => exact ⟨kv, Sound.named hash ((hash _).putAll (clean kvs)) _, zset⟩
  | hdel name key => exact ⟨kv, Sound.named hash ((hash _).forget _) _, zset⟩
  | multiHdel name array => exact ⟨kv, Sound.named hash ((hash _).forget _) _, zset⟩
  | zset name key score =>
      have range : IsInt64 score := on
      exact ⟨kv, hash, Sound.named zset ((zset _).putAll (List.forall_mem_singleton.mpr range)) _⟩
  | multiZset name kss => exact ⟨kv, hash, Sound.named zset ((zset _).putAll on) _⟩
  | zdel name key => exact ⟨kv, hash, Sound.named zset ((zset _).forget _) _⟩
  | multiZdel name array => exact ⟨kv, hash, Sound.named zset ((zset _).forget _) _⟩
  | _ => exact ⟨kv, hash, zset⟩

section Shows

variable {reply : List Bytes} {s : Status} {errno : Errno}

theorem keys_clean (array : KeyArray) : ∀ key ∈ array.keys, 0 ∉ key := by
  have collected (left : Nat) (entries : List (Option Bytes)) : ∀ key ∈ KeyArray.collect left entries, 0 ∉ key := by
    induction entries generalizing left with
    | nil => cases left <;> exact nofun
    | cons entry rest ih =>
        cases left with
        | zero => exact nofun
        | succ left =>
            cases entry with
            | none => exact nofun
            | some key => exact List.forall_mem_cons.mpr ⟨clean_cString key, ih left⟩
  exact collected array.size array.entries

theorem foundPairs_clean {entries : Bytes → Option Bytes} (clean : Everywhere (0 ∉ ·) entries) {keys : List Bytes}
    (keysClean : ∀ key ∈ keys, 0 ∉ key) : ∀ text ∈ Store.foundPairs entries keys, 0 ∉ text := by
  intro text member
  obtain ⟨key, inside, pair⟩ := List.mem_flatMap.mp member
  cases found : entries key with
  | none => simp [found] at pair
  | some value =>
      rw [found] at pair
      rcases List.mem_pair.mp pair with rfl | rfl
      · exact keysClean _ inside
      · exact clean key _ found

theorem ofResp_of_head (head : reply.head? = some (ascii "ok")) : Status.ofResp (some reply) = ⟨ascii "ok"⟩ := by
  obtain ⟨rest, rfl⟩ := List.head?_eq_some_iff.mp head
  rfl

theorem status_shows {request : List Bytes} (head : reply.head? = some (ascii "ok")) :
    ((statusMethod (.status request)).result s errno (some reply)).ret = 1 := by
  change okResult (Status.ofResp (some reply)) = 1
  rw [ofResp_of_head head]
  rfl

theorem list_shows {table : UInt64} {request : List Bytes} {entries : Bytes → Option Bytes} {array : KeyArray}
    (clean : Everywhere (0 ∉ ·) entries) :
    ShowsPairs entries array.keys ((listMethod table strlen (.list request)).result s errno
      (some (ascii "ok" :: Store.foundPairs entries array.keys))) := by
  refine ⟨rfl, ?_⟩
  have texts := foundPairs_clean clean (keys_clean array)
  have made : (listMethod table strlen (.list request)).result s errno
      (some (ascii "ok" :: Store.foundPairs entries array.keys)) =
      Returned.ofList table.toNat strlen (some (ascii "ok" :: Store.foundPairs entries array.keys)) errno := rfl
  rw [made, Returned.ofList, readList_ok, Dictionary.texts, Vec.fill_fresh]
  simp only [Option.elim_some, List.map_map]
  exact (List.map_congr_left fun text member => cString_of_clean (texts text member)).trans (List.map_id _)

theorem hget_shows {name key : Bytes} (value : Option Bytes) (clean : ∀ text ∈ value, 0 ∉ text) :
    ShowsText value ((DBSS.hget name key).result s errno (some (Store.found value))) := by
  cases value with
  | none => exact ⟨rfl, bufferText_single []⟩
  | some text =>
      refine ⟨rfl, (bufferText_single text).trans (cString_of_clean (clean text rfl))⟩

theorem zget_shows {name key : Bytes} (score : Option Int) (range : ∀ value ∈ score, IsInt64 value) :
    ((DBSS.zget name key).result s errno (some (Store.found (score.map str)))).ret =
        (if score.isSome then 1 else 0) ∧
      ((DBSS.zget name key).result s errno (some (Store.found (score.map str)))).num = score := by
  cases score with
  | none => exact ⟨rfl, rfl⟩
  | some value =>
      have read := IntType.InRange.parse_str (show IntType.int64.InRange value from range value rfl) errno
      exact ⟨rfl, congrArg some (congrArg Prod.fst read)⟩

theorem get_found {key : Bytes} (value : Option Bytes) :
    bufferText ((DBSS.get key).result s errno (some (Store.found value))).writes = cString (value.getD []) := by
  cases value with
  | none => exact bufferText_single []
  | some text =>
      have written : ((DBSS.get key).result s errno (some (Store.found (some text)))).writes =
          [(text.length + 1, [0])] ++ [strcpy text] := by
        simp [DBSS.get, ClientImpl.get, Command.string, Store.found, readStr_value, Status.ok]
      rw [written, bufferText_strcpy]
      rfl

theorem get_shows {key : Bytes} (value : Option Bytes) (clean : ∀ text ∈ value, 0 ∉ text) :
    bufferText ((dbssGet key).result s errno (some (Store.found value))).writes = value.getD [] := by
  have copied := bufferText_strcpy [(0, List.replicate dbssGetBuffer 0)] (cString (value.getD []))
  rw [dbssGet, Operation.result_map, get_found]
  rw [List.singleton_append, cString_cString] at copied
  rw [copied]
  cases value with
  | none => rfl
  | some text => exact cString_of_clean (clean text rfl)

/-- A call on the answer that the store gives shows what the dictionary has. -/
theorem shows_of_answer (sound : dictionary.Sound) (on : api.OnEntries) {request : List Bytes}
    (asked : api.operation.requests = [request]) (answers : dictionary.store.Answers request reply) :
    dictionary.Shows (api.operation.result s errno (some reply)) api := by
  cases api with
  | get key =>
      cases asked
      cases answers
      exact ⟨rfl, fun _ => get_shows _ (sound.kv _)⟩
  | hget name key =>
      cases asked
      cases answers
      exact hget_shows _ (sound.hash _ _)
  | zget name key =>
      cases asked
      cases answers
      exact zget_shows _ (sound.zset _ _)
  | list op =>
      cases op with
      | multiGet array =>
          cases asked
          cases answers
          exact list_shows sound.kv
      | multiHget name array =>
          cases asked
          cases answers
          exact list_shows (sound.hash _)
      | multiZget name array =>
          cases asked
          cases answers
          refine list_shows fun key text found => ?_
          obtain ⟨score, _, rfl⟩ := Option.map_eq_some_iff.mp found
          exact clean_str score
      | _ => cases on
  | set | seti =>
      cases asked
      change (if (Status.ofResp (some reply)).ok then 1 else -1 : Int) = 1
      rw [ofResp_of_head answers]
      rfl
  | multiSet => rfl
  | del | multiDel | hset | hdel | multiHset | multiHdel | zset | zdel | multiZset | multiZdel =>
      cases asked
      exact status_shows answers
  | _ => cases on

theorem asks_once (on : api.OnEntries) : ∃ request, api.operation.requests = [request] := by
  cases api with
  | list op =>
      cases op with
      | multiGet | multiHget | multiZget => exact ⟨_, rfl⟩
      | _ => cases on
  | get | hget | zget | set | seti | multiSet | del | multiDel | hset | hdel | multiHset | multiHdel | zset | zdel
  | multiZset | multiZdel => exact ⟨_, rfl⟩
  | _ => cases on

end Shows

/-- The dictionary that a server's store is to a program. -/
def view : View Store Dictionary Store.act where
  state := store
  after := after
  Sound := Sound
  On := Api.OnEntries
  asks_once := asks_once
  sound_after := Sound.after
  state_after _ on := store_after on

end Dictionary

variable {server : Server} {this : DBSS} {host : Host} {calls : List Api}

/-- Against a server that keeps a store, over a connection that lasts, a session
is a session with a dictionary: every call returns, and it shows what the calls
before it have made of the empty one. -/
theorem session_shows (lasting : Lasting server this host calls) (on : ∀ api ∈ calls, api.OnEntries)
    (kept : Store.Kept server.answer .empty [] (requestsOf calls)) :
    (this.session host calls).map ApiCall.api = calls ∧
      ∀ earlier made later, this.session host calls = earlier ++ made :: later → ∃ call, made.run = .done call ∧
        (Dictionary.empty.afterAll (earlier.map ApiCall.api)).Shows call.returned made.api := by
  refine ⟨lasting.ready.makes_all, fun earlier made later split => ?_⟩
  obtain ⟨call, s, errno, request, reply, done, asked, returned, sound, here, answers⟩ :=
    Dictionary.view.answered lasting Dictionary.Sound.empty on kept split
  refine ⟨call, done, ?_⟩
  rw [returned]
  exact Dictionary.shows_of_answer sound here asked answers

def threeCalls : List Api :=
  [.zset (ascii "z") (ascii "a") (-7), .set (ascii "k") (ascii "v"), .zget (ascii "z") (ascii "a")]

/-- A read of one byte and one that is interrupted, and then as much as there is. -/
def freshReads : List ReadOutcome :=
  .deliver 0 :: .fail .eintr :: List.replicate 100 (.deliver 100)

def freshWrites : List WriteOutcome :=
  .accept 3 :: .fail .ewouldblock :: List.replicate 100 (.accept 100)

def freshHost (server : Server) : Host :=
  { errno := .success, peer := server.peer, accepted := [], delivered := 0, reads := freshReads, writes := freshWrites
    asked := [] }

def freshObject : DBSS :=
  .new (some (.new (fun _ => 0) (fun _ => 0) [] []))

theorem fresh_supply {server : Server} :
    (freshHost server).reads.countP ReadOutcome.delivers = 101 ∧
      (freshHost server).writes.countP WriteOutcome.accepts = 101 := by
  constructor
  · rw [freshHost, freshReads, List.countP_cons, List.countP_cons, List.countP_replicate]
    rfl
  · rw [freshHost, freshWrites, List.countP_cons, List.countP_cons, List.countP_replicate]
    rfl

theorem freshHost_supports {server : Server} {requests : List (List Bytes)}
    (answers : ((framing maxPacketSize).stream (server.answers requests)).length ≤ 101)
    (asked : ((framing server.limit).stream requests).length ≤ 101) : (freshHost server).Supports server requests where
  readsPass := show ∀ outcome ∈ freshReads, outcome.Passes by decide
  writesPass := show ∀ outcome ∈ freshWrites, outcome.Passes by decide
  reads := answers.trans (by rw [fresh_supply.1]; exact Nat.le_add_left 101 0)
  writes := asked.trans (by rw [fresh_supply.2]; exact Nat.le_add_left 101 0)

theorem freshHost_lasting {server : Server} {calls : List Api} (accepts : ∀ req ∈ requestsOf calls, server.Accepts req)
    (answers : ((framing maxPacketSize).stream (server.answers (requestsOf calls))).length ≤ 101)
    (asked : ((framing server.limit).stream (requestsOf calls)).length ≤ 101) :
    Lasting server freshObject (freshHost server) calls :=
  ⟨⟨_, _, [], [], rfl, List.forall_mem_nil _, List.forall_mem_nil _⟩, rfl, rfl, rfl, accepts,
    freshHost_supports answers asked⟩

theorem session_shows_three :
    (freshObject.session (freshHost .keeper) threeCalls).map ApiCall.api = threeCalls ∧
      ∀ earlier made later, freshObject.session (freshHost .keeper) threeCalls = earlier ++ made :: later →
        ∃ call, made.run = .done call ∧
          (Dictionary.empty.afterAll (earlier.map ApiCall.api)).Shows call.returned made.api := by
  apply session_shows (freshHost_lasting (by decide) (by decide +kernel) (by decide))
  · simp [threeCalls, Api.OnEntries, IsInt64]
  · exact ⟨by decide +kernel, by decide +kernel, by decide +kernel, trivial⟩

end Dbss
