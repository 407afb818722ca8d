import Dbss.Wrapper
import Dbss.Ssdb.Store

namespace Dbss

open Dbss.Data Dbss.Util Dbss.Ssdb

/-! Writing many entries with one request, and writing them one by one. -/

theorem pairUp_flatten (entries : List (Bytes × Bytes)) : pairUp (flatten entries) = entries :=
  pairUp_flatMap entries

theorem collect_clean {left : Nat} {strings : List Bytes} :
    ∀ pair ∈ KvArray.collect left strings, cString pair.1 = pair.1 ∧ cString pair.2 = pair.2 := by
  fun_induction KvArray.collect left strings with
  | case1 left key val rest ih =>
      intro pair member
      rcases List.mem_cons.mp member with rfl | later
      · exact ⟨cString_cString key, cString_cString val⟩
      · exact ih pair later
  | case2 => simp

theorem scores_clean (kss : ScoreArray) : ∀ pair ∈ kss.pairs, cString pair.1 = pair.1 := by
  intro pair member
  obtain ⟨entry, _, rfl⟩ := List.mem_map.mp member
  exact cString_cString entry.1

/-- The requests of one `set` for each pair of the array, in its order. -/
def setEach (kvs : KvArray) : List (List Bytes) :=
  kvs.pairs.flatMap fun pair => (DBSS.set pair.1 pair.2).requests

def hsetEach (name : Bytes) (kvs : KvArray) : List (List Bytes) :=
  kvs.pairs.flatMap fun pair => (DBSS.hset name pair.1 pair.2).requests

def zsetEach (name : Bytes) (kss : ScoreArray) : List (List Bytes) :=
  kss.pairs.flatMap fun pair => (DBSS.zset name pair.1 pair.2).requests

theorem requests_each {α : Type} {pairs : List α} {requests : α → List (List Bytes)}
    {request : α → List Bytes} (one : ∀ pair ∈ pairs, requests pair = [request pair]) :
    pairs.flatMap requests = pairs.map request :=
  (List.flatMap_congr one).trans List.map_eq_flatMap.symm

theorem setEach_eq (kvs : KvArray) :
    setEach kvs = kvs.pairs.map fun pair => [ascii "set", pair.1, pair.2] := by
  apply requests_each
  intro pair member
  obtain ⟨key, val⟩ := collect_clean pair member
  simp [DBSS.set, ClientImpl.set, key, val]

theorem hsetEach_eq (name : Bytes) (kvs : KvArray) :
    hsetEach name kvs = kvs.pairs.map fun pair => [ascii "hset", cString name, pair.1, pair.2] := by
  apply requests_each
  intro pair member
  obtain ⟨key, val⟩ := collect_clean pair member
  simp [DBSS.hset, ClientImpl.hset, key, val]

theorem zsetEach_eq (name : Bytes) (kss : ScoreArray) :
    zsetEach name kss = (kss.pairs.map fun pair => (pair.1, str pair.2)).map fun pair =>
      [ascii "zset", cString name, pair.1, pair.2] := by
  rw [List.map_map]
  apply requests_each
  intro pair member
  simp [DBSS.zset, ClientImpl.zset, scores_clean kss pair member]

theorem write_multi_set (store : Store) (entries : List (Bytes × Bytes)) :
    store.write (ascii "multi_set" :: flatten entries) =
      { store with kv := assignAll store.kv entries } := by
  cases entries with
  | nil => rfl
  | cons entry rest =>
      change { store with kv := assignAll store.kv (pairUp (flatten (entry :: rest))) } = _
      rw [pairUp_flatten]

theorem write_multi_hset (store : Store) (name : Bytes) (entries : List (Bytes × Bytes)) :
    store.write (ascii "multi_hset" :: name :: flatten entries) =
      { store with hash := assignNamed store.hash name entries } := by
  change { store with hash := assignNamed store.hash name (pairUp (flatten entries)) } = _
  rw [pairUp_flatten]

theorem write_multi_zset (store : Store) (name : Bytes) (entries : List (Bytes × Bytes)) :
    store.write (ascii "multi_zset" :: name :: flatten entries) =
      { store with zset := assignNamed store.zset name entries } := by
  change { store with zset := assignNamed store.zset name (pairUp (flatten entries)) } = _
  rw [pairUp_flatten]

theorem multiSet_eq_iff (store : Store) (kvs : KvArray) :
    store.writeAll (DBSS.multiSet kvs).requests = store.writeAll (setEach kvs) ↔
      ∀ key, kvs.pairs.lookup key = kvs.pairs.reverse.lookup key := by
  have batch : store.writeAll (DBSS.multiSet kvs).requests =
      { store with kv := assignAll store.kv (OrderedMap.ofPairs kvs.pairs).entries } :=
    write_multi_set store _
  rw [batch, setEach_eq, Store.writeAll_set]
  simpa using OrderedMap.assignAll_ofPairs_iff Function.injective_id store.kv kvs.pairs

theorem multiHset_eq_iff (store : Store) (name : Bytes) (kvs : KvArray) :
    store.writeAll (DBSS.multiHset name kvs).requests = store.writeAll (hsetEach name kvs) ↔
      ∀ key, kvs.pairs.lookup key = kvs.pairs.reverse.lookup key := by
  have batch : store.writeAll (DBSS.multiHset name kvs).requests =
      { store with
        hash := assignNamed store.hash (cString name) (OrderedMap.ofPairs kvs.pairs).entries } :=
    write_multi_hset store _ _
  rw [batch, hsetEach_eq, Store.writeAll_hset]
  simpa [assignNamed_inj] using
    OrderedMap.assignAll_ofPairs_iff Function.injective_id (store.hash (cString name)) kvs.pairs

theorem multiZset_eq_iff (store : Store) (name : Bytes) (kss : ScoreArray) :
    store.writeAll (DBSS.multiZset name kss).requests = store.writeAll (zsetEach name kss) ↔
      ∀ key, kss.pairs.lookup key = kss.pairs.reverse.lookup key := by
  have batch : store.writeAll (DBSS.multiZset name kss).requests =
      { store with
        zset := assignNamed store.zset (cString name)
          ((OrderedMap.ofPairs kss.pairs).entries.map fun entry => (entry.1, str entry.2)) } :=
    write_multi_zset store _ _
  rw [batch, zsetEach_eq, Store.writeAll_zset]
  simpa [assignNamed_inj] using
    OrderedMap.assignAll_ofPairs_iff str_injective (store.zset (cString name)) kss.pairs

/-- A batch does what the single writes do exactly when every key that comes
more than once has the same value first and last: the map keeps the first. -/
theorem batch_eq_sequence_iff (store : Store) (name : Bytes) (kvs : KvArray) (kss : ScoreArray) :
    (store.writeAll (DBSS.multiSet kvs).requests = store.writeAll (setEach kvs) ↔
        ∀ key, kvs.pairs.lookup key = kvs.pairs.reverse.lookup key) ∧
      (store.writeAll (DBSS.multiHset name kvs).requests = store.writeAll (hsetEach name kvs) ↔
        ∀ key, kvs.pairs.lookup key = kvs.pairs.reverse.lookup key) ∧
      (store.writeAll (DBSS.multiZset name kss).requests = store.writeAll (zsetEach name kss) ↔
        ∀ key, kss.pairs.lookup key = kss.pairs.reverse.lookup key) :=
  ⟨multiSet_eq_iff store kvs, multiHset_eq_iff store name kvs, multiZset_eq_iff store name kss⟩

def repeatedKey : KvArray where
  strings := [ascii "k", ascii "1", ascii "k", ascii "2"]
  size := 4
  readable := by decide

/-- The batch stores the first value, the single writes leave the last. -/
theorem multiSet_repeated_key :
    Store.empty.writeAll (DBSS.multiSet repeatedKey).requests ≠
      Store.empty.writeAll (setEach repeatedKey) := by
  intro same
  have value := congrArg (fun store => store.kv (ascii "k")) same
  revert value
  decide

end Dbss
