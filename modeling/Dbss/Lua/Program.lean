import Dbss.Lua.Methods
import Dbss.Lua.Multi
import Dbss.Wrapper.Dictionary

namespace Dbss.Lua

open Dbss.Data Dbss.Util Dbss.Ssdb Dbss.Net

/-! Lua programs that use `DB`, against a server that keeps a store.  As before,
cells and buffers are read as if what was copied there fitted. -/

/-- The methods that read, write and delete entries. -/
inductive Method where
  | get (key : Bytes)
  | set (key : Bytes) (val : LuaValue)
  | del (key : Bytes)
  | multiGet (keys : List Bytes) (vlen : Option UInt64)
  | multiSet (kvs : List (Bytes × LuaValue))
  | multiDel (keys : List Bytes)
  | hget (name key : Bytes)
  | hset (name key : Bytes) (val : LuaValue)
  | hdel (name key : Bytes)
  | multiHget (name : Bytes) (keys : List Bytes) (vlen : Option UInt64)
  | multiHset (name : Bytes) (kvs : List (Bytes × LuaValue))
  | multiHdel (name : Bytes) (keys : List Bytes)
  | zget (name key : Bytes)
  | zset (name key : Bytes) (score : Int)
  | zdel (name key : Bytes)
  | multiZget (name : Bytes) (keys : List Bytes) (vlen : Option UInt64)
  | multiZset (name : Bytes) (kvs : List (Bytes × Int))
  | multiZdel (name : Bytes) (keys : List Bytes)

namespace Method

def status (returned : Returned) : Option Outcome :=
  some (.value (.number returned.ret))

def text (fetched : Fetched) : Option Outcome :=
  some (.value (.string fetched.value))

/-- What the method does and gives back; `none` where its loop reads an entry
that the C++ side has not stored. -/
def operation (ffi : CIntConversion) : Method → Operation (Option Outcome)
  | get key => (Mt.get key).map text
  | set key val => (Mt.set ffi key val).map status
  | del key => (Mt.del key).map status
  | multiGet keys vlen => (Mt.multiGet keys vlen).map (Option.map .table)
  | multiSet kvs => (Mt.multiSet kvs).map status
  | multiDel keys => (Mt.multiDel keys).map status
  | hget name key => (Mt.hget name key).map text
  | hset name key val => (Mt.hset name key val).map status
  | hdel name key => (Mt.hdel name key).map status
  | multiHget name keys vlen => (Mt.multiHget name keys vlen).map (Option.map .table)
  | multiHset name kvs => (Mt.multiHset name kvs).map status
  | multiHdel name keys => (Mt.multiHdel name keys).map status
  | zget name key => (Mt.zget name key).map fun value => some (.value value)
  | zset name key score => (Mt.zset name key score).map fun _ => some .nothing
  | zdel name key => (Mt.zdel name key).map status
  | multiZget name keys vlen => (Mt.multiZget name keys vlen).map (Option.map .table)
  | multiZset name kvs => (Mt.multiZset name kvs).map status
  | multiZdel name keys => (Mt.multiZdel name keys).map status

/-- The one call of the C API that the method makes. -/
def api (ffi : CIntConversion) : Method → Api
  | get key | multiGet [key] _ => .get (pass key)
  | set key (.number val) => .seti (pass key) (ffi.toInt val)
  | set key (.string val) => .set (pass key) (pass val)
  | del key => .del (pass key)
  | multiGet keys vlen => .list (.multiGet (keyArray keys) (vlen.getD 128))
  | multiSet kvs => .multiSet (kvArray kvs)
  | multiDel keys => .multiDel (keyArray keys)
  | hget name key | multiHget name [key] _ => .hget (pass name) (pass key)
  | hset name key val => .hset (pass name) (pass key) (pass (concat val))
  | hdel name key => .hdel (pass name) (pass key)
  | multiHget name keys vlen => .list (.multiHget (pass name) (keyArray keys) (vlen.getD 128))
  | multiHset name kvs => .multiHset (pass name) (kvArray kvs)
  | multiHdel name keys => .multiHdel (pass name) (keyArray keys)
  | zget name key | multiZget name [key] _ => .zget (pass name) (pass key)
  | zset name key score => .zset (pass name) (pass key) score
  | zdel name key => .zdel (pass name) (pass key)
  | multiZget name keys vlen => .list (.multiZget (pass name) (keyArray keys) (vlen.getD 128))
  | multiZset name kvs => .multiZset (pass name) (scoreArray kvs)
  | multiZdel name keys => .multiZdel (pass name) (keyArray keys)

/-- What the method makes of the outcome of its call. -/
def read : Method → Returned → Option Outcome
  | get _, returned => text (fetched 255 returned)
  | hget .., returned => text (fetched 1 returned)
  | zget .., returned => some (.value (Mt.number returned))
  | zset .., _ => some .nothing
  | multiGet [key] _, returned => some (.table (Table.empty.set key (.string (fetched 255 returned).value)))
  | multiHget _ [key] _, returned => some (.table (Table.empty.set key (.string (fetched 1 returned).value)))
  | multiZget _ [key] _, returned => some (.table (Table.empty.set key (Mt.number returned)))
  | multiGet keys _, returned | multiHget _ keys _, returned | multiZget _ keys _, returned =>
      (Mt.multiTable keys returned).map .table
  | _, returned => status returned

theorem operation_eq (ffi : CIntConversion) (method : Method) :
    method.operation ffi = (method.api ffi).operation.map method.read := by
  cases method with
  | set key val => cases val <;> rfl
  | multiGet keys | multiHget _ keys | multiZget _ keys => rcases keys with _ | ⟨key, _ | ⟨next, rest⟩⟩ <;> rfl
  | _ => rfl

end Method

/-! ### What a program means -/

/-- The text of a value, a number being its numeral. -/
def LuaValue.text : LuaValue → Bytes
  | .string text => text
  | .number value => str value

/-- A value that is handed over as its text: a string without a NUL, or a number of a range. -/
def LuaValue.Arrives (range : Int → Prop) : LuaValue → Prop
  | .string text => 0 ∉ text
  | .number value => range value

/-- The numbers that go through an `int`. -/
def CInt (value : Int) : Prop :=
  -2147483648 ≤ value ∧ value < 2147483648

/-- The numbers that Lua writes out. -/
def Written (value : Int) : Prop :=
  value.natAbs < 10 ^ 14

namespace Method

/-- Names, keys and values that arrive. -/
def Plain : Method → Prop
  | get key | del key => 0 ∉ key
  | set key val => 0 ∉ key ∧ val.Arrives CInt
  | multiGet keys _ | multiDel keys => ∀ key ∈ keys, 0 ∉ key
  | multiSet kvs => ∀ kv ∈ kvs, 0 ∉ kv.1 ∧ kv.2.Arrives Written
  | hget name key | hdel name key | zget name key | zdel name key => 0 ∉ name ∧ 0 ∉ key
  | hset name key val => 0 ∉ name ∧ 0 ∉ key ∧ val.Arrives Written
  | multiHget name keys _ | multiHdel name keys | multiZget name keys _ | multiZdel name keys =>
      0 ∉ name ∧ ∀ key ∈ keys, 0 ∉ key
  | multiHset name kvs => 0 ∉ name ∧ ∀ kv ∈ kvs, 0 ∉ kv.1 ∧ kv.2.Arrives Written
  | zset name key score => 0 ∉ name ∧ 0 ∉ key ∧ IsInt64 score
  | multiZset name kvs => 0 ∉ name ∧ ∀ kv ∈ kvs, 0 ∉ kv.1 ∧ IsInt64 kv.2

def texts (kvs : List (Bytes × LuaValue)) : List (Bytes × Bytes) :=
  kvs.map fun kv => (kv.1, kv.2.text)

/-- What the method leaves of a dictionary. -/
def effect (dictionary : Dictionary) : Method → Dictionary
  | get _ | multiGet .. | hget .. | multiHget .. | zget .. | multiZget .. => dictionary
  | set key val => { dictionary with kv := putAll dictionary.kv [(key, val.text)] }
  | multiSet kvs => { dictionary with kv := putAll dictionary.kv (texts kvs) }
  | del key => { dictionary with kv := forget dictionary.kv [key] }
  | multiDel keys => { dictionary with kv := forget dictionary.kv keys }
  | hset name key val =>
      { dictionary with hash := Function.update dictionary.hash name (putAll (dictionary.hash name) [(key, val.text)]) }
  | multiHset name kvs =>
      { dictionary with hash := Function.update dictionary.hash name (putAll (dictionary.hash name) (texts kvs)) }
  | hdel name key =>
      { dictionary with hash := Function.update dictionary.hash name (forget (dictionary.hash name) [key]) }
  | multiHdel name keys =>
      { dictionary with hash := Function.update dictionary.hash name (forget (dictionary.hash name) keys) }
  | zset name key score =>
      { dictionary with zset := Function.update dictionary.zset name (putAll (dictionary.zset name) [(key, score)]) }
  | multiZset name kvs =>
      { dictionary with zset := Function.update dictionary.zset name (putAll (dictionary.zset name) kvs) }
  | zdel name key =>
      { dictionary with zset := Function.update dictionary.zset name (forget (dictionary.zset name) [key]) }
  | multiZdel name keys =>
      { dictionary with zset := Function.update dictionary.zset name (forget (dictionary.zset name) keys) }

/-- What one key reads as: a missing text is empty, and a missing score 0. -/
def alone (dictionary : Dictionary) : Family → Bytes → LuaValue
  | .kv, key => .string ((dictionary.kv key).getD [])
  | .hash name, key => .string ((dictionary.hash name key).getD [])
  | .zset name, key => .number (toDouble ((dictionary.zset name key).getD 0))

/-- Several keys are read only if all of them are there, and then scores are texts. -/
def several (dictionary : Dictionary) (family : Family) : List Bytes → Option Outcome
  | [key] => some (.table (Table.empty.set key (alone dictionary family key)))
  | keys =>
      if ∀ key ∈ keys, (family.entries dictionary.store key).isSome then
        some (.table (existing family dictionary.store keys))
      else
        none

/-- What the method gives back. -/
def sees (dictionary : Dictionary) : Method → Option Outcome
  | get key => some (.value (alone dictionary .kv key))
  | hget name key => some (.value (alone dictionary (.hash name) key))
  | zget name key => some (.value (alone dictionary (.zset name) key))
  | multiGet keys _ => several dictionary .kv keys
  | multiHget name keys _ => several dictionary (.hash name) keys
  | multiZget name keys _ => several dictionary (.zset name) keys
  | zset .. => some .nothing
  | _ => some (.value (.number 1))

end Method

/-- A program over a dictionary of its own. -/
def withDictionary (dictionary : Dictionary) : List Method → List (Option Outcome)
  | [] => []
  | method :: later => method.sees dictionary :: withDictionary (method.effect dictionary) later

/-- A program over a connection: what its methods give back, as far as they return. -/
def overConnection (ffi : CIntConversion) (this : DBSS) (host : Host) : List Method → List (Option Outcome)
  | [] => []
  | method :: later =>
      match (method.api ffi).operation.perform this host with
      | .done call => method.read call.returned :: overConnection ffi call.this call.host later
      | .waiting | .undefined => []

namespace Method

variable {ffi : CIntConversion} {dictionary : Dictionary} {method : Method} {val : LuaValue}

theorem concat_text (arrives : val.Arrives Written) : cString (concat val) = val.text := by
  cases val with
  | string text => exact cString_of_clean arrives
  | number value =>
      rw [concat, formatG_eq_iff.mpr arrives]
      exact cString_of_clean (clean_str value)

theorem kvArray_pairs (kvs : List (Bytes × LuaValue)) :
    (kvArray kvs).pairs = kvs.map fun kv => (cString kv.1, cString (concat kv.2)) := by
  induction kvs with
  | nil => rfl
  | cons kv rest ih =>
      change (cString (pass kv.1), cString (pass (concat kv.2))) :: (kvArray rest).pairs = _
      rw [ih, cString_pass, cString_pass]
      rfl

theorem scoreArray_pairs (kvs : List (Bytes × Int)) :
    (scoreArray kvs).pairs = kvs.map fun kv => (cString kv.1, kv.2) := by
  simp [scoreArray, ScoreArray.pairs, List.take_of_length_le]

theorem texts_arrive {kvs : List (Bytes × LuaValue)} (plain : ∀ kv ∈ kvs, 0 ∉ kv.1 ∧ kv.2.Arrives Written) :
    (kvArray kvs).pairs = texts kvs := by
  rw [kvArray_pairs]
  exact List.map_congr_left fun kv member => by
    rw [cString_of_clean (plain kv member).1, concat_text (plain kv member).2]

theorem scores_arrive {kvs : List (Bytes × Int)} (plain : ∀ kv ∈ kvs, 0 ∉ kv.1 ∧ IsInt64 kv.2) :
    (scoreArray kvs).pairs = kvs := by
  rw [scoreArray_pairs]
  refine (List.map_congr_left fun kv member => ?_).trans (List.map_id kvs)
  rw [cString_of_clean (plain kv member).1]
  rfl

theorem keys_arrive {keys : List Bytes} (plain : ∀ key ∈ keys, 0 ∉ key) : (keyArray keys).keys = keys := by
  rw [keyArray_keys]
  exact (List.map_congr_left fun key member => cString_of_clean (plain key member)).trans (List.map_id keys)

theorem on_entries (plain : method.Plain) : (method.api ffi).OnEntries := by
  cases method with
  | set key val => cases val <;> trivial
  | multiGet keys | multiHget _ keys | multiZget _ keys => rcases keys with _ | ⟨key, _ | ⟨next, rest⟩⟩ <;> trivial
  | zset name key score => exact plain.2.2
  | multiZset name kvs =>
      change ∀ pair ∈ (scoreArray kvs).pairs, IsInt64 pair.2
      rw [scores_arrive plain.2]
      exact fun pair member => (plain.2 pair member).2
  | _ => trivial

/-- A plain call does to the dictionary what the method means. -/
theorem after_api (plain : method.Plain) : dictionary.after (method.api ffi) = method.effect dictionary := by
  cases method with
  | get | hget | zget => rfl
  | multiGet keys | multiHget _ keys | multiZget _ keys => rcases keys with _ | ⟨key, _ | ⟨next, rest⟩⟩ <;> rfl
  | set key val =>
      obtain ⟨key, arrives⟩ := plain
      cases val with
      | string text =>
          simp [api, Dictionary.after, effect, cString_of_clean key, cString_of_clean arrives, LuaValue.text]
      | number value =>
          simp [api, Dictionary.after, effect, cString_of_clean key, ffi.exact value arrives.1 arrives.2, LuaValue.text]
  | multiSet kvs => simp only [api, Dictionary.after, effect, texts_arrive plain]
  | del key => simp [api, Dictionary.after, effect, cString_of_clean plain]
  | multiDel keys => simp only [api, Dictionary.after, effect, keys_arrive plain]
  | hset name key val =>
      obtain ⟨name, key, arrives⟩ := plain
      simp [api, Dictionary.after, effect, cString_of_clean name, cString_of_clean key, concat_text arrives]
  | multiHset name kvs =>
      simp only [api, Dictionary.after, effect, cString_pass, cString_of_clean plain.1, texts_arrive plain.2]
  | hdel name key | zdel name key =>
      simp [api, Dictionary.after, effect, cString_of_clean plain.1, cString_of_clean plain.2]
  | multiHdel name keys | multiZdel name keys =>
      simp only [api, Dictionary.after, effect, cString_pass, cString_of_clean plain.1, keys_arrive plain.2]
  | zset name key score =>
      simp [api, Dictionary.after, effect, cString_of_clean plain.1, cString_of_clean plain.2.1]
  | multiZset name kvs =>
      simp only [api, Dictionary.after, effect, cString_pass, cString_of_clean plain.1, scores_arrive plain.2]

section Sees

variable {s : Status} {errno : Errno}

theorem get_value (sound : dictionary.Sound) {key : Bytes} :
    ((Mt.get key).result s errno (some (Store.found (dictionary.kv key)))).value = (dictionary.kv key).getD [] := by
  simp only [Mt.get, Operation.result_map, fetched, Dictionary.get_shows _ (sound.kv key)]

theorem hget_value (sound : dictionary.Sound) {name key : Bytes} :
    ((Mt.hget name key).result s errno (some (Store.found (dictionary.hash name key)))).value =
      (dictionary.hash name key).getD [] := by
  simp only [Mt.hget, Operation.result_map, fetched, (Dictionary.hget_shows _ (sound.hash name key)).2]

theorem zget_value (sound : dictionary.Sound) {name key : Bytes} :
    (Mt.zget name key).result s errno (some (Store.found ((dictionary.zset name key).map str))) =
      .number (toDouble ((dictionary.zset name key).getD 0)) := by
  simp only [Mt.zget, Operation.result_map, (Dictionary.zget_shows _ (sound.zset name key)).2]

theorem several_many (dictionary : Dictionary) (family : Family) {keys : List Bytes} (many : keys.length ≠ 1) :
    several dictionary family keys =
      if ∀ key ∈ keys, (family.entries dictionary.store key).isSome then
        some (.table (existing family dictionary.store keys))
      else none := by
  match keys, many with
  | [], _ | _ :: _ :: _, _ => rfl

theorem entries_clean (sound : dictionary.Sound) (family : Family) :
    Everywhere (0 ∉ ·) (family.entries dictionary.store) := by
  cases family with
  | kv => exact sound.kv
  | hash name => exact sound.hash (cString name)
  | zset name =>
      intro key text found
      obtain ⟨score, _, rfl⟩ := Option.map_eq_some_iff.mp found
      exact clean_str score

/-- Other than one key, on the answer of a store with the dictionary's entries. -/
theorem several_answered (sound : dictionary.Sound) (family : Family) {keys : List Bytes} (many : keys.length ≠ 1)
    (plain : ∀ key ∈ keys, 0 ∉ key) (vlen : Option UInt64) :
    (answered (family.multi keys vlen) dictionary.store s errno).map Outcome.table =
      several dictionary family keys := by
  have whole : ∀ key ∈ keys, cString key = key := fun key member => cString_of_clean (plain key member)
  have ret : (readList (some (dictionary.store.answer ((family.multi keys vlen).requests.headD [])))).ret =
      flatten (present (family.entries dictionary.store) keys) := by
    rw [multi_eq_call family vlen many, Operation.requests_map, call_answer, readList_ok, List.map_congr_left whole,
      List.map_id']
  obtain ⟨atMost, all⟩ := present_length (family.entries dictionary.store) keys
  rw [answered, multi_result family vlen s errno many ret atMost, several_many dictionary family many]
  by_cases each : ∀ key ∈ keys, (family.entries dictionary.store key).isSome
  · rw [if_pos (all.mpr each), if_pos each, Option.map_some]
    congr 2
    funext key
    rw [tableOf_present whole, existing]
    by_cases member : key ∈ keys
    · obtain ⟨value, found⟩ := Option.isSome_iff_exists.mp (each key member)
      simp [member, found, cString_of_clean (entries_clean sound family key value found)]
    · simp [member, Table.empty]
  · rw [if_neg (mt all.mp each), if_neg each, Option.map_none]

def Named : Family → Prop
  | .kv => True
  | .hash name | .zset name => 0 ∉ name

theorem alone_answered (sound : dictionary.Sound) (family : Family) (named : Named family) {key : Bytes}
    (plain : 0 ∉ key)
    (vlen : Option UInt64) :
    answered (family.multi [key] vlen) dictionary.store s errno = Mt.singleTable key (alone dictionary family key) := by
  cases family with
  | kv =>
      have asked : dictionary.store.answer ((Family.kv.multi [key] vlen).requests.headD []) =
          Store.found (dictionary.kv (cString (pass key))) := rfl
      rw [cString_pass, cString_of_clean plain] at asked
      rw [answered, asked, Family.multi, Mt.multiGet, Operation.result_map, get_value sound]
      rfl
  | hash name =>
      have asked : dictionary.store.answer (((Family.hash name).multi [key] vlen).requests.headD []) =
          Store.found (dictionary.hash (cString (pass name)) (cString (pass key))) := rfl
      rw [cString_pass, cString_pass, cString_of_clean plain, cString_of_clean named] at asked
      rw [answered, asked, Family.multi, Mt.multiHget, Operation.result_map, hget_value sound]
      rfl
  | zset name =>
      have asked : dictionary.store.answer (((Family.zset name).multi [key] vlen).requests.headD []) =
          Store.found ((dictionary.zset (cString (pass name)) (cString (pass key))).map str) := rfl
      rw [cString_pass, cString_pass, cString_of_clean plain, cString_of_clean named] at asked
      rw [answered, asked, Family.multi, Mt.multiZget, Operation.result_map, zget_value sound]
      rfl

theorem keys_answered (sound : dictionary.Sound) (family : Family) (named : Named family) {keys : List Bytes}
    (plain : ∀ key ∈ keys, 0 ∉ key) (vlen : Option UInt64) :
    (answered (family.multi keys vlen) dictionary.store s errno).map Outcome.table =
      several dictionary family keys := by
  by_cases many : keys.length ≠ 1
  · exact several_answered sound family many plain vlen
  · obtain ⟨key, rfl⟩ := List.length_eq_one_iff.mp (not_not.mp many)
    rw [alone_answered sound family named (plain key (by simp))]
    rfl

theorem status_one {returned : Returned} (shown : returned.ret = 1) : status returned = some (.value (.number 1)) := by
  rw [status, shown]

/-- On the answer of a store with the dictionary's entries the method gives back
what it sees of the dictionary. -/
theorem sees_of_answer (sound : dictionary.Sound) (plain : method.Plain) {request reply : List Bytes}
    (asked : (method.api ffi).operation.requests = [request]) (answers : dictionary.store.Answers request reply)
    (s : Status) (errno : Errno) :
    (method.operation ffi).result s errno (some reply) = method.sees dictionary := by
  have shown := @Dictionary.shows_of_answer _ _ _ s errno sound (on_entries plain) _ asked answers
  cases method with
  | get key =>
      have same : reply = Store.found (dictionary.kv (cString (pass key))) := by cases asked; exact answers
      rw [cString_pass, cString_of_clean plain] at same
      simp only [operation, Operation.result_map, text, same, get_value sound, sees, alone]
  | hget name key =>
      have same : reply = Store.found (dictionary.hash (cString (pass name)) (cString (pass key))) := by
        cases asked; exact answers
      rw [cString_pass, cString_pass, cString_of_clean plain.1, cString_of_clean plain.2] at same
      simp only [operation, Operation.result_map, text, same, hget_value sound, sees, alone]
  | zget name key =>
      have same : reply = Store.found ((dictionary.zset (cString (pass name)) (cString (pass key))).map str) := by
        cases asked; exact answers
      rw [cString_pass, cString_pass, cString_of_clean plain.1, cString_of_clean plain.2] at same
      simp only [operation, Operation.result_map, same, zget_value sound, sees, alone]
  | multiGet keys vlen =>
      have same : reply = dictionary.store.answer ((Family.kv.multi keys vlen).requests.headD []) := by
        rcases keys with _ | ⟨key, _ | ⟨next, rest⟩⟩ <;> cases asked <;> exact answers
      rw [operation, Operation.result_map, same]
      exact keys_answered sound .kv trivial plain vlen
  | multiHget name keys vlen =>
      have same : reply = dictionary.store.answer (((Family.hash name).multi keys vlen).requests.headD []) := by
        rcases keys with _ | ⟨key, _ | ⟨next, rest⟩⟩ <;> cases asked <;> exact answers
      rw [operation, Operation.result_map, same]
      exact keys_answered sound (.hash name) plain.1 plain.2 vlen
  | multiZget name keys vlen =>
      have same : reply = dictionary.store.answer (((Family.zset name).multi keys vlen).requests.headD []) := by
        rcases keys with _ | ⟨key, _ | ⟨next, rest⟩⟩ <;> cases asked <;> exact answers
      rw [operation, Operation.result_map, same]
      exact keys_answered sound (.zset name) plain.1 plain.2 vlen
  | set key val =>
      rw [operation_eq, Operation.result_map]
      cases val <;> exact status_one shown
  | zset => rfl
  | _ => exact status_one shown

end Sees

end Method

section Program

variable {ffi : CIntConversion} {dictionary : Dictionary} {program : List Method}

theorem effects_api (plain : ∀ method ∈ program, method.Plain) :
    dictionary.afterAll (program.map (Method.api ffi)) = program.foldl Method.effect dictionary := by
  induction program generalizing dictionary with
  | nil => rfl
  | cons method later ih =>
      rw [List.map_cons, List.foldl_cons, ← Method.after_api (plain method (by simp))]
      exact ih fun method member => plain method (by simp [member])

/-- If each call of a session gives back what its method sees of the dictionary
that the methods before it left, the whole program does. -/
theorem program_of_calls {this : DBSS} {host : Host}
    (each : ∀ earlier made later, this.session host (program.map (Method.api ffi)) = earlier ++ made :: later →
      ∀ method ∈ program[earlier.length]?, ∃ call, made.run = .done call ∧
        method.read call.returned = method.sees ((program.take earlier.length).foldl Method.effect dictionary)) :
    overConnection ffi this host program = withDictionary dictionary program := by
  induction program generalizing this host dictionary with
  | nil => rfl
  | cons method later ih =>
      obtain ⟨call, done, sees⟩ := each [] _ _ rfl method rfl
      change (method.api ffi).operation.perform this host = _ at done
      rw [overConnection, done, withDictionary]
      refine congrArg₂ List.cons sees (ih fun earlier made rest split next member => ?_)
      have whole : this.session host ((method :: later).map (Method.api ffi)) =
          (⟨this, host, method.api ffi⟩ :: earlier) ++ made :: rest := by
        rw [List.map_cons, DBSS.session, done, List.cons_append, ← split]
      simpa using each _ _ _ whole next (by simpa using member)

/-- Against a server that keeps a store, a Lua program over a fresh connection
that lasts gives what it would give over a dictionary in its own memory, call by
call, provided that its strings have no NUL and its numbers are written as
numerals. -/
theorem program_sees {server : Server} {this : DBSS} {host : Host}
    (lasting : Lasting server this host (program.map (Method.api ffi))) (plain : ∀ method ∈ program, method.Plain)
    (kept : Store.Kept server.answer .empty [] (requestsOf (program.map (Method.api ffi)))) :
    overConnection ffi this host program = withDictionary .empty program := by
  apply program_of_calls
  intro earlier made later split method member
  have on : ∀ api ∈ program.map (Method.api ffi), api.OnEntries :=
    List.forall_mem_map.mpr fun method inside => Method.on_entries (plain method inside)
  obtain ⟨call, s, errno, request, reply, done, asked, returned, sound, _, answers⟩ :=
    Dictionary.view.answered lasting Dictionary.Sound.empty on kept split
  obtain ⟨rest, same, _⟩ := lasting.ready.session split
  have here : made.api = method.api ffi := by
    have at_place := congrArg (·[earlier.length]?) same
    simpa [Option.mem_def.mp member] using at_place.symm
  have front : earlier.map ApiCall.api = (program.take earlier.length).map (Method.api ffi) := by
    have first := congrArg (List.take earlier.length) same
    simpa using first.symm
  have effects : (earlier.map ApiCall.api).foldl Dictionary.after .empty =
      (program.take earlier.length).foldl Method.effect .empty :=
    front ▸ effects_api fun method inside => plain method (List.mem_of_mem_take inside)
  have sound : Dictionary.Sound ((program.take earlier.length).foldl Method.effect .empty) := effects ▸ sound
  have answers :
      Store.Answers (Dictionary.store ((program.take earlier.length).foldl Method.effect .empty)) request reply :=
    effects ▸ answers
  rw [here] at asked returned
  have seen := Method.sees_of_answer sound (plain method (List.mem_of_getElem? member)) asked answers s errno
  rw [Method.operation_eq, Operation.result_map] at seen
  exact ⟨call, done, by rw [returned, seen]⟩

end Program

def threeMethods : List Method :=
  [.set (ascii "k") (.number 7), .multiHset (ascii "h") [(ascii "b", .string (ascii "x")), (ascii "a", .number 1)],
    .multiHget (ascii "h") [ascii "a", ascii "b"] none]

theorem threeMethods_plain : ∀ method ∈ threeMethods, method.Plain := by
  simp only [threeMethods, List.forall_mem_cons, List.not_mem_nil, false_implies, implies_true, and_true, Method.Plain,
    LuaValue.Arrives, CInt, Written]
  decide

theorem program_sees_three :
    overConnection .wrapping freshObject (freshHost .keeper) threeMethods = withDictionary .empty threeMethods := by
  apply program_sees (freshHost_lasting (by decide) (by decide +kernel) (by decide)) threeMethods_plain
  exact ⟨by decide +kernel, by decide +kernel, by decide +kernel, trivial⟩

end Dbss.Lua
