import Dbss.Lua.Values
import Dbss.Ssdb.Store

namespace Dbss.Lua

open Dbss.Data Dbss.Util Dbss.Ssdb

/-! Reading many keys with one Lua call, against a server that answers from a
store.  Cells and buffers are read as if what was copied there fitted; whether
it does is a matter of its own. -/

inductive Family where
  | kv
  | hash (name : Bytes)
  | zset (name : Bytes)

namespace Family

def multi : Family → List Bytes → Option UInt64 → Operation (Option Table)
  | kv, keys, vlen => Mt.multiGet keys vlen
  | hash name, keys, vlen => Mt.multiHget name keys vlen
  | zset name, keys, vlen => Mt.multiZget name keys vlen

def entries (family : Family) (store : Store) : Bytes → Option Bytes :=
  match family with
  | kv => store.kv
  | hash name => store.hash (cString name)
  | zset name => store.zset (cString name)

end Family

/-- The outcome of an operation when the server answers its request from `store`. -/
def answered {α : Type} (operation : Operation α) (store : Store) (s : Status) (errno : Errno) : α :=
  operation.result s errno (some (store.answer (operation.requests.headD [])))

def cellsOf (ret : List Bytes) : List Cell :=
  ret.map fun text => ⟨strlen text, cString text⟩

def tableOf (pairs : List (Bytes × Bytes)) (tb : Table) : Table :=
  pairs.foldl (fun tb pair => tb.set (cString pair.1) (.string (cString pair.2))) tb

section ReadTable

variable {vec : Vec} {i left : Nat} {k : Bytes} {tb : Table}

/-- With fewer entries than rounds the loop reads one that is not there. -/
theorem readTable_short (inside : i ≤ vec.cells.length) (short : vec.cells.length < i + left) :
    Mt.readTable vec i k tb left = none := by
  induction left generalizing i k tb with
  | zero => omega
  | succ left ih =>
      unfold Mt.readTable
      cases read : vec.cells[i]? with
      | none => rfl
      | some cell =>
          have before := (List.getElem?_eq_some_iff.mp read).1
          simp only
          split <;> exact ih (by omega) (by omega)

theorem readTable_pairs {pairs : List (Bytes × Bytes)} (even : i % 2 = 0)
    (rest : vec.cells.drop i = cellsOf (flatten pairs)) :
    Mt.readTable vec i k tb (pairs.length * 2) = some (tableOf pairs tb) := by
  induction pairs generalizing i k tb with
  | nil => rfl
  | cons pair later ih =>
      have entry (index : Nat) :
          vec.cells[i + index]? = (cellsOf (flatten (pair :: later)))[index]? := by
        rw [← rest, List.getElem?_drop]
      have key : vec.cells[i]? = some ⟨strlen pair.1, cString pair.1⟩ := entry 0
      have value : vec.cells[i + 1]? = some ⟨strlen pair.2, cString pair.2⟩ := entry 1
      have further : vec.cells.drop (i + 2) = cellsOf (flatten later) := by
        simpa [cellsOf, flatten] using congrArg (List.drop 2) rest
      rw [List.length_cons, Nat.succ_mul]
      unfold Mt.readTable
      simp only [key, even, if_true]
      unfold Mt.readTable
      simp only [value, show (i + 1) % 2 ≠ 0 by omega, if_false]
      exact ih (by omega) further

end ReadTable

theorem keyArray_keys (keys : List Bytes) : (keyArray keys).keys = keys.map cString := by
  induction keys with
  | nil => rfl
  | cons key rest ih =>
      change cString (pass key) :: (keyArray rest).keys = _
      rw [ih, cString_pass]
      rfl

def present (entries : Bytes → Option Bytes) (keys : List Bytes) : List (Bytes × Bytes) :=
  keys.filterMap fun key => (entries key).map fun value => (key, value)

theorem foundPairs_eq (entries : Bytes → Option Bytes) (keys : List Bytes) :
    Store.foundPairs entries keys = flatten (present entries keys) := by
  induction keys with
  | nil => rfl
  | cons key rest ih =>
      unfold Store.foundPairs present flatten at ih ⊢
      rw [List.flatMap_cons, ih]
      cases found : entries key <;> simp [found]

theorem flatten_length (pairs : List (Bytes × Bytes)) : (flatten pairs).length = 2 * pairs.length := by
  simp [flatten, List.length_flatMap, Nat.mul_comm]

theorem present_length (entries : Bytes → Option Bytes) (keys : List Bytes) :
    (present entries keys).length ≤ keys.length ∧
      ((present entries keys).length = keys.length ↔ ∀ key ∈ keys, (entries key).isSome) := by
  constructor
  · exact List.length_filterMap_le _ keys
  · simp [present, List.filterMap_length_eq_length]

def Family.call (family : Family) (keys : List Bytes) (vlen : Option UInt64) : Operation Returned :=
  match family with
  | kv => DBSS.multiGet (keyArray keys) (vlen.getD 128)
  | hash name => DBSS.multiHget (pass name) (keyArray keys) (vlen.getD 128)
  | zset name => DBSS.multiZget (pass name) (keyArray keys) (vlen.getD 128)

section Call

variable (family : Family) (store : Store) {keys : List Bytes} (vlen : Option UInt64) (s : Status)
  (errno : Errno) {resp : Option (List Bytes)}

theorem multi_eq_call (many : keys.length ≠ 1) :
    family.multi keys vlen = (family.call keys vlen).map (Mt.multiTable keys) := by
  match keys, many with
  | [], _ => cases family <;> rfl
  | first :: second :: rest, _ => cases family <;> rfl

theorem call_vec :
    ((family.call keys vlen).result s errno resp).vec =
      some ((Vec.fresh (some (UInt64.ofNat keys.length * vlen.getD 128).toNat)).fill strlen
        (readList resp).ret) := by
  cases family <;> rfl

theorem call_answer :
    store.answer ((family.call keys vlen).requests.headD []) =
      ascii "ok" :: flatten (present (family.entries store) (keys.map cString)) := by
  rw [← foundPairs_eq, ← keyArray_keys]
  cases family with
  | kv => rfl
  | hash name | zset name =>
      simp only [Family.entries]
      rw [← cString_pass name]
      rfl

/-- With other than one key the reply has to have a pair for each. -/
theorem multi_result {pairs : List (Bytes × Bytes)} (many : keys.length ≠ 1)
    (ret : (readList resp).ret = flatten pairs) (bound : pairs.length ≤ keys.length) :
    (family.multi keys vlen).result s errno resp =
      if pairs.length = keys.length then some (tableOf pairs .empty) else none := by
  rw [multi_eq_call family vlen many, Operation.result_map, Mt.multiTable, call_vec, ret,
    Option.getD_some, Vec.fill_fresh]
  split
  · next all =>
      rw [← all]
      exact readTable_pairs rfl rfl
  · next fewer =>
      apply readTable_short (Nat.zero_le _)
      simp only [List.length_map, flatten_length]
      omega

end Call

/-- The table has the requested keys that have an entry; any other key is as it was. -/
theorem tableOf_present {entries : Bytes → Option Bytes} {keys : List Bytes}
    (clean : ∀ key ∈ keys, cString key = key) (tb : Table) (key : Bytes) :
    tableOf (present entries keys) tb key =
      if key ∈ keys ∧ (entries key).isSome then (entries key).map fun value => .string (cString value)
      else tb key := by
  induction keys generalizing tb with
  | nil => simp [present, tableOf]
  | cons first rest ih =>
      have later := ih fun other member => clean other (List.mem_cons_of_mem _ member)
      cases found : entries first with
      | none =>
          have skipped : present entries (first :: rest) = present entries rest := by
            simp [present, found]
          rw [skipped, later]
          by_cases same : key = first
          · simp [same, found]
          · simp [same]
      | some value =>
          have taken : present entries (first :: rest) = (first, value) :: present entries rest := by
            simp [present, found]
          have step : tableOf (present entries (first :: rest)) tb =
              tableOf (present entries rest) (tb.set first (.string (cString value))) := by
            rw [taken, tableOf, List.foldl_cons, clean first List.mem_cons_self]
            rfl
          rw [step, later]
          by_cases same : key = first
          · simp [same, found, Table.set]
          · simp [same, Table.set]

section Multi

variable (family : Family) (store : Store) (keys : List Bytes) (vlen : Option UInt64) (s : Status)
  (errno : Errno) (resp : Option (List Bytes))

def existing : Table := fun key =>
  if key ∈ keys then (family.entries store key).map .string else none

/-- A call for two or more keys reads only what the C++ side stored, and returns
the keys that exist with their values, exactly if it succeeds and all exist:
the loop expects a pair for every key. -/
theorem multi_existing_iff (two : 2 ≤ keys.length) (cleanKeys : ∀ key ∈ keys, 0 ∉ key)
    (cleanValues : ∀ key ∈ keys, ∀ value ∈ family.entries store key, 0 ∉ value)
    (replied : resp = some (store.answer ((family.multi keys vlen).requests.headD [])) ∨
      ¬ Succeeded resp) :
    (family.multi keys vlen).result s errno resp = some (existing family store keys) ↔
      Succeeded resp ∧ ∀ key ∈ keys, (family.entries store key).isSome := by
  have many : keys.length ≠ 1 := by omega
  have whole : ∀ key ∈ keys, cString key = key := fun key member => cString_of_clean (cleanKeys key member)
  obtain ⟨atMost, all⟩ := present_length (family.entries store) keys
  by_cases succeeded : Succeeded resp
  · have answer : resp =
        some (ascii "ok" :: flatten (present (family.entries store) keys)) := by
      rw [replied.resolve_right (not_not.mpr succeeded), multi_eq_call family vlen many,
        Operation.requests_map, call_answer, List.map_congr_left whole, List.map_id']
    have ret : (readList resp).ret = flatten (present (family.entries store) keys) := by
      rw [answer, readList_ok]
    have table : tableOf (present (family.entries store) keys) .empty = existing family store keys := by
      funext key
      rw [tableOf_present whole, existing]
      by_cases member : key ∈ keys
      · cases found : family.entries store key with
        | none => simp [member, Table.empty]
        | some value => simp [member, cString_of_clean (cleanValues key member value found)]
      · simp [member, Table.empty]
    rw [multi_result family vlen s errno many ret atMost, table, ← all]
    simp [succeeded]
  · have nothing : (readList resp).ret = flatten [] := by
      rw [readList_failed succeeded]
      rfl
    rw [multi_result family vlen s errno many nothing (Nat.zero_le _), if_neg (by simp; omega)]
    simp [succeeded]

end Multi

theorem multi_existing_both :
    (Family.kv.multi [ascii "a", ascii "b"] none).result {} .success
        (some [ascii "ok", ascii "a", ascii "1", ascii "b", ascii "2"]) =
      some (existing .kv (Store.empty.writeAll
        [[ascii "set", ascii "a", ascii "1"], [ascii "set", ascii "b", ascii "2"]]) [ascii "a", ascii "b"]) := by
  apply (multi_existing_iff .kv _ [ascii "a", ascii "b"] none {} .success _ (by decide) (by decide)
    (by decide) (.inl (by decide))).mpr
  exact ⟨⟨_, rfl⟩, by decide⟩

/-- One of the two keys is missing: the loop reads past the pair that came back. -/
theorem multi_get_missing_key :
    answered (Family.kv.multi [ascii "a", ascii "b"] none)
        (Store.empty.write [ascii "set", ascii "a", ascii "1"]) {} .success ≠
      some (existing .kv (Store.empty.write [ascii "set", ascii "a", ascii "1"]) [ascii "a", ascii "b"]) := by
  intro same
  have reads := congrArg Option.isSome same
  revert reads
  decide

section Shortcut

variable (family : Family) (store : Store) (key other : Bytes) (vlen : Option UInt64) (s : Status)
  (errno : Errno)

/-- The table of a one-key call has that key, whatever the store says. -/
theorem short_get :
    answered (Family.kv.multi [key] vlen) store s errno =
      Mt.singleTable key (.string (((store.kv (cString key)).map cString).getD [])) := by
  have asked : store.answer ((Family.kv.multi [key] vlen).requests.headD []) =
      Store.found (store.kv (cString key)) := by
    rw [← cString_pass key]
    rfl
  rw [answered, asked, Family.multi, Mt.multiGet, Operation.result_map]
  cases store.kv (cString key) with
  | none => rw [Store.found, get_missing]; rfl
  | some value => rw [Store.found, get_fetched]; rfl

theorem short_hget (name : Bytes) :
    answered ((Family.hash name).multi [key] vlen) store s errno =
      Mt.singleTable key (.string (((store.hash (cString name) (cString key)).map cString).getD [])) := by
  have asked : store.answer (((Family.hash name).multi [key] vlen).requests.headD []) =
      Store.found (store.hash (cString name) (cString key)) := by
    rw [← cString_pass key, ← cString_pass name]
    rfl
  rw [answered, asked, Family.multi, Mt.multiHget, Operation.result_map]
  cases store.hash (cString name) (cString key) with
  | none => rw [Store.found, hget_missing]; rfl
  | some value => rw [Store.found, hget_fetched]; rfl

theorem long_result :
    answered (family.multi [key, other] vlen) store s errno =
      if ∀ name ∈ [cString key, cString other], (family.entries store name).isSome then
        some (tableOf (present (family.entries store) [cString key, cString other]) .empty)
      else none := by
  have many : [key, other].length ≠ 1 := by simp
  obtain ⟨atMost, all⟩ := present_length (family.entries store) [cString key, cString other]
  have ret : (readList (some (store.answer ((family.multi [key, other] vlen).requests.headD [])))).ret =
      flatten (present (family.entries store) [cString key, cString other]) := by
    rw [multi_eq_call family vlen many, Operation.requests_map, call_answer, readList_ok]
    rfl
  rw [answered, multi_result family vlen s errno many ret atMost]
  simp only [← all]
  rfl

def restrict (tb : Table) (key : Bytes) : Table := fun name =>
  if name = key then tb name else none

omit other vlen in
theorem single_eq_restrict {tb : Table} {value : LuaValue} :
    Mt.singleTable key value = some (restrict tb key) ↔ tb key = some value := by
  rw [Mt.singleTable, Option.some_inj, funext_iff]
  constructor
  · intro same
    simpa [Table.set, restrict] using (same key).symm
  · intro there name
    by_cases same : name = key
    · simp [same, Table.set, restrict, there]
    · simp [same, Table.set, restrict, Table.empty]

def Family.readsText : Family → Bool
  | kv | hash _ => true
  | zset _ => false

theorem short_text (text : family.readsText = true) :
    answered (family.multi [key] vlen) store s errno =
      Mt.singleTable key
        (.string (((family.entries store (cString key)).map cString).getD [])) := by
  cases family with
  | kv => exact short_get store key vlen s errno
  | hash name => exact short_hget store key vlen s errno name
  | zset name => cases text

theorem short_number (number : family.readsText = false) :
    ∃ value, answered (family.multi [key] vlen) store s errno =
      Mt.singleTable key (.number value) := by
  cases family with
  | kv | hash name => cases number
  | zset name => exact ⟨_, rfl⟩

/-- A one-key call agrees with a call for two keys exactly where it reads text,
its key has no NUL, and both keys exist.  Missing keys are an empty string or a
zero one way and an overrun the other; scores are numbers one way and text the
other. -/
theorem shortcut_agrees_iff :
    (∃ long, answered (family.multi [key, other] vlen) store s errno = some long ∧
      answered (family.multi [key] vlen) store s errno = some (restrict long key)) ↔
      family.readsText = true ∧ 0 ∉ key ∧ (family.entries store key).isSome ∧
        (family.entries store (cString other)).isSome := by
  rw [long_result]
  by_cases both : ∀ name ∈ [cString key, cString other], (family.entries store name).isSome
  · rw [if_pos both]
    have clean : ∀ name ∈ [cString key, cString other], cString name = name := by simp
    have entry : tableOf (present (family.entries store) [cString key, cString other]) .empty key = _ :=
      tableOf_present clean .empty key
    simp only [Option.some.injEq, exists_eq_left']
    cases text : family.readsText with
    | false =>
        obtain ⟨value, number⟩ := short_number family store key vlen s errno text
        rw [number, single_eq_restrict, entry]
        split
        · cases family.entries store key <;> simp
        · simp [Table.empty]
    | true =>
        rw [short_text family store key vlen s errno text, single_eq_restrict, entry]
        by_cases whole : 0 ∈ key
        · have absent : key ∉ [cString key, cString other] := by
            intro member
            exact cString_eq_self_iff.mp (clean key member) whole
          simp [absent, whole, Table.empty]
        · have same := cString_of_clean whole
          simp only [List.forall_mem_cons, same] at both
          obtain ⟨value, found⟩ := Option.isSome_iff_exists.mp both.1
          simp [whole, found, both.2.1]
  · rw [if_neg both]
    constructor
    · rintro ⟨long, none, _⟩
      cases none
    · rintro ⟨_, whole, first, second⟩
      rw [← cString_of_clean whole] at first
      exact absurd (by simpa using ⟨first, second⟩) both

end Shortcut

def twoScores : Store :=
  Store.empty.writeAll
    [[ascii "zset", ascii "z", ascii "a", ascii "1"], [ascii "zset", ascii "z", ascii "b", ascii "2"]]

/-- The score of `a` is the number 1 alone and the text `1` together with `b`. -/
theorem multi_zget_shortcut_differs :
    ¬ ∃ long,
      answered ((Family.zset (ascii "z")).multi [ascii "a", ascii "b"] none) twoScores {} .success =
          some long ∧
        answered ((Family.zset (ascii "z")).multi [ascii "a"] none) twoScores {} .success =
          some (restrict long (ascii "a")) := by
  intro agrees
  obtain ⟨long, general, alone⟩ := agrees
  have text : some (some (LuaValue.string (ascii "1"))) = some (long (ascii "a")) :=
    (show _ = Option.map (fun tb : Table => tb (ascii "a")) (answered _ _ _ _) by decide).trans
      (congrArg (Option.map fun tb : Table => tb (ascii "a")) general)
  have number : some (some (LuaValue.number 1)) = some (long (ascii "a")) :=
    (show _ = Option.map (fun tb : Table => tb (ascii "a")) (answered _ _ _ _) by decide).trans
      (congrArg (Option.map fun tb : Table => tb (ascii "a")) alone)
  cases text.trans number.symm

end Dbss.Lua
