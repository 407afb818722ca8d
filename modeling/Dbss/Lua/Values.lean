import Dbss.Lua

namespace Dbss.Lua

open Dbss.Data Dbss.Util

/-! Single values through Lua: names, keys and values on their way to the
request, numbers that are written, and values that come back. -/

section Strings

variable (ffi : CIntConversion) (key val : Bytes)

/-- A string arrives up to its first NUL. -/
theorem set_requests :
    (Mt.set ffi key (.string val)).requests = [[ascii "set", cString key, cString val]] := by
  simp [Mt.set, DBSS.set, ClientImpl.set]

theorem del_requests : (Mt.del key).requests = [[ascii "del", cString key]] := by
  simp [Mt.del, DBSS.del, ClientImpl.del]

end Strings

/-- The server entries that `DB:set(key, val)` and `DB:del(key)` are about. -/
def addressed (ffi : CIntConversion) (key val : Bytes) : List (Option Bytes) :=
  ((Mt.set ffi key (.string val)).requests ++ (Mt.del key).requests).map fun req => req[1]?

/-- Strings without a NUL cross the layers unchanged, and only they do.  Two
keys are mistaken for each other exactly when they agree up to their first NUL. -/
theorem strings_cross_iff (ffi : CIntConversion) (key val other more : Bytes) :
    ((Mt.set ffi key (.string val)).requests = [[ascii "set", key, val]] ↔ 0 ∉ key ∧ 0 ∉ val) ∧
      ((Mt.del key).requests = [[ascii "del", key]] ↔ 0 ∉ key) ∧
      ((∀ entry ∈ addressed ffi key val, entry ∉ addressed ffi other more) ↔
        cString key ≠ cString other) ∧
      (0 ∉ key ∧ 0 ∉ other → (cString key ≠ cString other ↔ key ≠ other)) := by
  simp only [addressed, set_requests, del_requests]
  refine ⟨by simp [cString_eq_self_iff], by simp [cString_eq_self_iff], by simp, ?_⟩
  intro clean
  rw [cString_of_clean clean.1, cString_of_clean clean.2]

/-- The key `a`, NUL, `b` arrives as `a`. -/
theorem set_embedded_nul :
    (Mt.set .wrapping [97, 0, 98] (.string (ascii "v"))).requests ≠ [[ascii "set", [97, 0, 98], ascii "v"]] ∧
      ¬ ∀ entry ∈ addressed .wrapping [97, 0, 98] [], entry ∉ addressed .wrapping [97] [] := by
  decide

section Numbers

variable (ffi : CIntConversion) (name key : Bytes) (value ttl : Int)

theorem set_number_requests :
    (Mt.set ffi key (.number value)).requests =
      [[ascii "set", cString key, str (ffi.toInt value)]] := by
  simp [Mt.set, dbssSeti, DBSS.set, ClientImpl.set, clean_str]

theorem setx_number_requests :
    (Mt.setx ffi key (.number value) ttl).requests =
      [[ascii "setx", cString key, str (ffi.toInt value), str (ffi.toInt ttl)]] := by
  simp [Mt.setx, dbssSetxi, DBSS.setx, ClientImpl.setx, clean_str]

theorem hset_number_requests :
    (Mt.hset name key (.number value)).requests =
      [[ascii "hset", cString name, cString key, formatG value]] := by
  simp [Mt.hset, DBSS.hset, ClientImpl.hset, concat, clean_formatG]

theorem kvArray_single_pairs :
    (kvArray [(key, .number value)]).pairs = [(cString key, formatG value)] := by
  simp [kvArray, KvArray.pairs, KvArray.collect, concat, clean_formatG]

theorem multiSet_number_requests :
    (Mt.multiSet [(key, .number value)]).requests =
      [[ascii "multi_set", cString key, formatG value]] := by
  rw [Mt.multiSet, DBSS.multiSet, Command.thenDo_requests, kvArray_single_pairs]
  rfl

theorem multiHset_number_requests :
    (Mt.multiHset name [(key, .number value)]).requests =
      [[ascii "multi_hset", cString name, cString key, formatG value]] := by
  rw [Mt.multiHset, DBSS.multiHset, statusMethod_requests, kvArray_single_pairs, cString_pass]
  rfl

/-- When each writer sends the numeral of a whole number: those that go through
an `int` for the numbers of its range, those that use Lua's conversion for the
numbers of at most 14 digits. -/
theorem number_text_iff :
    ((Mt.set ffi key (.number value)).requests = [[ascii "set", cString key, str value]] ↔
        -2147483648 ≤ value ∧ value < 2147483648) ∧
      ((Mt.setx ffi key (.number value) ttl).requests =
          [[ascii "setx", cString key, str value, str (ffi.toInt ttl)]] ↔
        -2147483648 ≤ value ∧ value < 2147483648) ∧
      ((Mt.hset name key (.number value)).requests =
          [[ascii "hset", cString name, cString key, str value]] ↔ value.natAbs < 10 ^ 14) ∧
      ((Mt.multiSet [(key, .number value)]).requests =
          [[ascii "multi_set", cString key, str value]] ↔ value.natAbs < 10 ^ 14) ∧
      ((Mt.multiHset name [(key, .number value)]).requests =
          [[ascii "multi_hset", cString name, cString key, str value]] ↔ value.natAbs < 10 ^ 14) := by
  rw [set_number_requests, setx_number_requests, hset_number_requests, multiSet_number_requests,
    multiHset_number_requests]
  simp only [List.cons.injEq, true_and, and_true, ffi.str_eq_iff, formatG_eq_iff, and_self]

/-- 2^40 does not fit in an `int`. -/
theorem set_large_number :
    (Mt.set .wrapping (ascii "k") (.number 1099511627776)).requests ≠
      [[ascii "set", ascii "k", str 1099511627776]] := by
  decide

end Numbers

/-- A value comes back whole, and everything written on the way to it stays
inside the buffers: the one `ffi.new` gave, and a local one of the C side. -/
def ReadsBack (value : Bytes) (fetched : Fetched) (inner : List Write) : Prop :=
  Fits dbssGetBuffer inner ∧ Fits fetched.buffer fetched.writes ∧ fetched.value = value

instance (value : Bytes) (fetched : Fetched) (inner : List Write) :
    Decidable (ReadsBack value fetched inner) :=
  inferInstanceAs (Decidable (_ ∧ _ ∧ _))

theorem fits_nil (size : Nat) : Fits size [] := by
  simp [Fits]

section Fetched

variable (value name key : Bytes) (s : Status) (errno : Errno) (more : List Bytes)

/-- `DBSS::get` writes a byte past the terminator, then the value. -/
theorem get_writes :
    ((DBSS.get (pass key)).result s errno (some (ascii "ok" :: value :: more))).writes =
      [(value.length + 1, [0]), strcpy value] := by
  simp [DBSS.get, ClientImpl.get, Command.string, readStr_value, Status.ok]

theorem get_fetched :
    (Mt.get key).result s errno (some (ascii "ok" :: value :: more)) =
      ⟨255, [(0, List.replicate 255 0), strcpy value], cString value⟩ := by
  have inner := bufferText_strcpy [(value.length + 1, [0])] value
  have outer := bufferText_strcpy [(0, List.replicate 255 0)] value
  simp only [List.cons_append, List.nil_append] at inner outer
  simp only [Mt.get, dbssGet, Operation.result_map, fetched, get_writes, dbssGetBuffer, inner,
    strcpy_cString, outer]

theorem hget_fetched :
    (Mt.hget name key).result s errno (some (ascii "ok" :: value :: more)) =
      ⟨1, [strcpy value], cString value⟩ := by
  simp [Mt.hget, fetched, DBSS.hget, ClientImpl.hget, Command.string, readStr_value]

theorem qpop_fetched (vlen : Option Nat) :
    (Mt.qpop key vlen).result s errno (some (ascii "ok" :: value :: more)) =
      ⟨vlen.getD 128, [strcpy value], cString value⟩ := by
  simp [Mt.qpop, fetched, DBSS.qpop, ClientImpl.qpop, Command.string, readStr_value]

/-- A missing key reads as the empty string. -/
theorem get_missing : ((Mt.get key).result s errno (some [ascii "not_found"])).value = [] := by
  have inner : ((DBSS.get (pass key)).result s errno (some [ascii "not_found"])).writes = [strcpy []] :=
    rfl
  have outer := bufferText_strcpy [(0, List.replicate 255 0)] []
  simp only [List.cons_append, List.nil_append] at outer
  simp only [Mt.get, dbssGet, Operation.result_map, fetched, inner, dbssGetBuffer, bufferText_single,
    strcpy_cString, outer]
  rfl

theorem hget_missing : ((Mt.hget name key).result s errno (some [ascii "not_found"])).value = [] :=
  rfl

end Fetched

section Buffers

variable {value : Bytes} (clean : 0 ∉ value) (name key : Bytes) (s : Status) (errno : Errno)
  (more : List Bytes)

include clean

theorem fits_strcpy (size : Nat) : Fits size [strcpy value] ↔ value.length < size := by
  simp [Fits, strcpy, cString_of_clean clean]

theorem get_readsBack_iff :
    ReadsBack value ((Mt.get key).result s errno (some (ascii "ok" :: value :: more)))
        ((DBSS.get (pass key)).result s errno (some (ascii "ok" :: value :: more))).writes ↔
      value.length ≤ 253 := by
  rw [get_fetched, get_writes]
  simp only [ReadsBack, Fits, dbssGetBuffer, strcpy, cString_of_clean clean, List.forall_mem_cons,
    List.length_cons, List.length_append, List.length_nil, List.length_replicate, and_true,
    List.not_mem_nil, false_implies, implies_true]
  omega

theorem hget_readsBack_iff :
    ReadsBack value ((Mt.hget name key).result s errno (some (ascii "ok" :: value :: more))) [] ↔
      value = [] := by
  simp [hget_fetched, ReadsBack, fits_strcpy clean, cString_of_clean clean, fits_nil]

theorem qpop_readsBack_iff (vlen : Option Nat) :
    ReadsBack value ((Mt.qpop key vlen).result s errno (some (ascii "ok" :: value :: more))) [] ↔
      value.length < vlen.getD 128 := by
  simp [qpop_fetched, ReadsBack, fits_strcpy clean, cString_of_clean clean, fits_nil]

end Buffers

/-- The lengths up to which a value fits: 253 for `get`, whose local buffer
takes a byte more than the terminator; none for `hget`; `vlen - 1` for `qpop`. -/
theorem readsBack_iff {value : Bytes} (clean : 0 ∉ value) (name key : Bytes) (vlen : Option Nat)
    (s : Status) (errno : Errno) (more : List Bytes) :
    (ReadsBack value ((Mt.get key).result s errno (some (ascii "ok" :: value :: more)))
          ((DBSS.get (pass key)).result s errno (some (ascii "ok" :: value :: more))).writes ↔
        value.length ≤ 253) ∧
      (ReadsBack value ((Mt.hget name key).result s errno (some (ascii "ok" :: value :: more))) [] ↔
        value = []) ∧
      (ReadsBack value ((Mt.qpop key vlen).result s errno (some (ascii "ok" :: value :: more))) [] ↔
        value.length < vlen.getD 128) :=
  ⟨get_readsBack_iff clean key s errno more, hget_readsBack_iff clean name key s errno more,
    qpop_readsBack_iff clean key s errno more vlen⟩

theorem readsBack_iff_short :
    ReadsBack (ascii "value")
      ((Mt.get (ascii "key")).result {} .success (some [ascii "ok", ascii "value"]))
      ((DBSS.get (pass (ascii "key"))).result {} .success (some [ascii "ok", ascii "value"])).writes :=
  (readsBack_iff (show 0 ∉ ascii "value" by decide) [] (ascii "key") none {} .success []).1.mpr (by decide)

/-- `DB:hget` has one byte for `value` and its terminator. -/
theorem hget_overrun :
    ¬ ReadsBack (ascii "value")
      ((Mt.hget (ascii "name") (ascii "key")).result {} .success (some [ascii "ok", ascii "value"])) [] := by
  decide

end Dbss.Lua
