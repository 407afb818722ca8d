import Dbss.Wrapper

namespace Dbss

open Dbss.Data Dbss.Util

/-! The data operations of the library as calls with their arguments: the
entries of the `extern "C"` block, and `DBSS::qslice`, which has none. -/

/-- The operations that hand out a list.  Where the method has a `try`, every
pointer argument may be NULL. -/
inductive ListOp where
  | keys (limit vlen : UInt64) (keyStart keyEnd : Option Bytes)
  | scan (limit vlen : UInt64) (keyStart keyEnd : Option Bytes)
  | rscan (limit vlen : UInt64) (keyStart keyEnd : Option Bytes)
  | multiGet (array : KeyArray) (vlen : UInt64)
  | hkeys (name : Option Bytes) (limit vlen : UInt64) (keyStart keyEnd : Option Bytes)
  | hgetall (name : Option Bytes)
  | hscan (name : Option Bytes) (limit vlen : UInt64) (keyStart keyEnd : Option Bytes)
  | hrscan (name : Option Bytes) (limit vlen : UInt64) (keyStart keyEnd : Option Bytes)
  | multiHget (name : Bytes) (array : KeyArray) (vlen : UInt64)
  | zrange (name : Option Bytes) (offset limit vlen : UInt64)
  | zrrange (name : Option Bytes) (offset limit vlen : UInt64)
  | zkeys (name keyStart : Option Bytes) (scoreStart scoreEnd : Int) (limit vlen : UInt64)
  | zscan (name keyStart : Option Bytes) (scoreStart scoreEnd : Int) (limit vlen : UInt64)
  | zrscan (name keyStart : Option Bytes) (scoreStart scoreEnd : Int) (limit vlen : UInt64)
  | multiZget (name : Bytes) (array : KeyArray) (vlen : UInt64)
  | qslice (name : Bytes) (begin «end» : Int) (vlen : UInt64)

namespace ListOp

/-- `DBSS_zkeys` and its like pass the addresses of their score parameters. -/
def operation : ListOp → Operation Returned
  | keys limit vlen keyStart keyEnd => DBSS.keys limit vlen keyStart keyEnd
  | scan limit vlen keyStart keyEnd => DBSS.scan keyStart keyEnd limit vlen
  | rscan limit vlen keyStart keyEnd => DBSS.rscan keyStart keyEnd limit vlen
  | multiGet array vlen => DBSS.multiGet array vlen
  | hkeys name limit vlen keyStart keyEnd => DBSS.hkeys name limit vlen keyStart keyEnd
  | hgetall name => DBSS.hgetall name
  | hscan name limit vlen keyStart keyEnd => DBSS.hscan name limit vlen keyStart keyEnd
  | hrscan name limit vlen keyStart keyEnd => DBSS.hrscan name limit vlen keyStart keyEnd
  | multiHget name array vlen => DBSS.multiHget name array vlen
  | zrange name offset limit vlen => DBSS.zrange name offset limit vlen
  | zrrange name offset limit vlen => DBSS.zrrange name offset limit vlen
  | zkeys name keyStart scoreStart scoreEnd limit vlen =>
      DBSS.zkeys name keyStart (some scoreStart) (some scoreEnd) limit vlen
  | zscan name keyStart scoreStart scoreEnd limit vlen =>
      DBSS.zscan name keyStart (some scoreStart) (some scoreEnd) limit vlen
  | zrscan name keyStart scoreStart scoreEnd limit vlen =>
      DBSS.zrscan name keyStart (some scoreStart) (some scoreEnd) limit vlen
  | multiZget name array vlen => DBSS.multiZget name array vlen
  | qslice name begin «end» vlen => DBSS.qslice name begin «end» vlen

/-- The pointers that `std::string` is made from inside a `try`. -/
def pointers : ListOp → List (Option Bytes)
  | keys _ _ keyStart keyEnd | scan _ _ keyStart keyEnd | rscan _ _ keyStart keyEnd =>
      [keyStart, keyEnd]
  | hkeys name _ _ keyStart keyEnd | hscan name _ _ keyStart keyEnd
  | hrscan name _ _ keyStart keyEnd => [name, keyStart, keyEnd]
  | hgetall name | zrange name _ _ _ | zrrange name _ _ _ => [name]
  | zkeys name keyStart .. | zscan name keyStart .. | zrscan name keyStart .. => [name, keyStart]
  | multiGet .. | multiHget .. | multiZget .. | qslice .. => []

/-- The bytes of a cell for a string: `vlen`, or the string's own length. -/
def cellSize : ListOp → Bytes → Nat
  | keys _ vlen _ _ | scan _ vlen _ _ | rscan _ vlen _ _ | zrange _ _ _ vlen | zrrange _ _ _ vlen
  | zkeys _ _ _ _ _ vlen | zscan _ _ _ _ _ vlen | zrscan _ _ _ _ _ vlen =>
      fun _ => (orDefault vlen 128).toNat
  | multiGet .. | hkeys .. | hgetall .. | hscan .. | hrscan .. | multiHget .. | multiZget ..
  | qslice .. => strlen

/-- The bytes of the table for `ptr`, where they follow from the arguments. -/
def table : ListOp → Option UInt64
  | keys limit vlen _ _ | scan limit vlen _ _ | rscan limit vlen _ _ | zrange _ _ limit vlen
  | zrrange _ _ limit vlen | zkeys _ _ _ _ limit vlen | zscan _ _ _ _ limit vlen
  | zrscan _ _ _ _ limit vlen => some (orDefault limit 10 * orDefault vlen 128)
  | hkeys _ limit vlen _ _ | hscan _ limit vlen _ _ | hrscan _ limit vlen _ _ => some (limit * vlen)
  | multiGet array vlen | multiHget _ array vlen | multiZget _ array vlen =>
      some (UInt64.ofNat array.size * vlen)
  | hgetall _ | qslice .. => none

def tableFor (op : ListOp) (ret : List Bytes) : Nat :=
  match op with
  | hgetall _ => (UInt64.ofNat ret.length * 1000).toNat
  | qslice _ _ _ vlen => (UInt64.ofNat ret.length * vlen).toNat
  | op => (op.table.getD 0).toNat

end ListOp

def Returned.ofList (table : Nat) (cellSize : Bytes → Nat) (resp : Option (List Bytes))
    (errno : Errno) : Returned :=
  let reply := readList resp
  { ret := okResult reply.status, s := reply.status, errno
    vec := some ((Vec.fresh (some table)).fill cellSize reply.ret) }

def Returned.caught (table : Option Nat) (s : Status) (errno : Errno) : Returned :=
  { ret := okResult s, s, errno, vec := some (Vec.fresh table) }

/-- Either a pointer is NULL and the `catch` block ends the call, or one request
is made and its reply fills the list. -/
theorem ListOp.operation_cases (op : ListOp) :
    (none ∈ op.pointers ∧ ∃ table, op.operation = .thrown (Returned.caught table) ∧
      ∀ bytes ∈ op.table, table = some bytes.toNat) ∨
    (none ∉ op.pointers ∧ ∃ req, op.operation = .request req fun errno resp =>
      Returned.ofList (op.tableFor (readList resp).ret) op.cellSize resp errno) := by
  cases op with
  | keys _ _ first last | scan _ _ first last | rscan _ _ first last | zkeys first last
  | zscan first last | zrscan first last =>
      cases first <;> cases last <;>
        first
        | exact .inl ⟨by simp [pointers], _, rfl, by simp [table]⟩
        | exact .inr ⟨by simp [pointers], _, rfl⟩
  | hkeys name _ _ first last | hscan name _ _ first last | hrscan name _ _ first last =>
      cases name <;> cases first <;> cases last <;>
        first
        | exact .inl ⟨by simp [pointers], _, rfl, by simp [table]⟩
        | exact .inr ⟨by simp [pointers], _, rfl⟩
  | hgetall name | zrange name | zrrange name =>
      cases name with
      | none => exact .inl ⟨by simp [pointers], _, rfl, by simp [table]⟩
      | some name => exact .inr ⟨by simp [pointers], _, rfl⟩
  | multiGet | multiHget | multiZget | qslice => exact .inr ⟨by simp [pointers], _, rfl⟩

inductive Api where
  | get (key : Bytes)
  | set (key val : Bytes)
  | seti (key : Bytes) (val : Int)
  | setx (key val : Bytes) (ttl : Int)
  | setxi (key : Bytes) (val ttl : Int)
  | del (key : Bytes)
  | incr (key : Bytes) (incrby : Int)
  | list (op : ListOp)
  | multiSet (kvs : KvArray)
  | multiDel (array : KeyArray)
  | hget (name key : Bytes)
  | hset (name key val : Bytes)
  | hdel (name key : Bytes)
  | hincr (name key : Bytes) (incrby : Int)
  | hsize (name : Bytes)
  | hclear (name : Bytes)
  | multiHset (name : Bytes) (kvs : KvArray)
  | multiHdel (name : Bytes) (array : KeyArray)
  | zget (name key : Bytes)
  | zset (name key : Bytes) (score : Int)
  | zdel (name key : Bytes)
  | zincr (name key : Bytes) (incrby : Int)
  | zsize (name : Bytes)
  | zclear (name : Bytes)
  | zrank (name key : Bytes)
  | zrrank (name key : Bytes)
  | multiZset (name : Bytes) (kss : ScoreArray)
  | multiZdel (name : Bytes) (array : KeyArray)
  | qpush (key val : Bytes)
  | qpop (key : Bytes)

namespace Api

def operation : Api → Operation Returned
  | get key => dbssGet key
  | set key val => DBSS.set key val
  | seti key val => dbssSeti key val
  | setx key val ttl => DBSS.setx key val ttl
  | setxi key val ttl => dbssSetxi key val ttl
  | del key => DBSS.del key
  | incr key incrby => DBSS.incr key incrby
  | list op => op.operation
  | multiSet kvs => DBSS.multiSet kvs
  | multiDel array => DBSS.multiDel array
  | hget name key => DBSS.hget name key
  | hset name key val => DBSS.hset name key val
  | hdel name key => DBSS.hdel name key
  | hincr name key incrby => DBSS.hincr name key incrby
  | hsize name => DBSS.hsize name
  | hclear name => DBSS.hclear name
  | multiHset name kvs => DBSS.multiHset name kvs
  | multiHdel name array => DBSS.multiHdel name array
  | zget name key => DBSS.zget name key
  | zset name key score => DBSS.zset name key score
  | zdel name key => DBSS.zdel name key
  | zincr name key incrby => DBSS.zincr name key incrby
  | zsize name => DBSS.zsize name
  | zclear name => DBSS.zclear name
  | zrank name key => DBSS.zrank name key
  | zrrank name key => DBSS.zrrank name key
  | multiZset name kss => DBSS.multiZset name kss
  | multiZdel name array => DBSS.multiZdel name array
  | qpush key val => DBSS.qpush key val
  | qpop key => DBSS.qpop key

def readsValue : Api → Bool
  | incr .. | hget .. | hincr .. | hsize _ | hclear _ | zget .. | zincr .. | zsize _ | zclear _
  | zrank .. | zrrank .. | qpop _ => true
  | _ => false

end Api

theorem one_le_okResult {s : Status} : 1 ≤ okResult s ↔ s.ok = true := by
  cases ok : s.ok <;> simp [okResult, ok]

/-- The returned `int` says what became of this call. -/
def Operation.Reports (operation : Operation Returned) (s : Status) (errno : Errno)
    (resp : Option (List Bytes)) : Prop :=
  1 ≤ (operation.result s errno resp).ret ↔ operation.Succeeds resp

section Reports

variable {s : Status} {errno : Errno} {resp : Option (List Bytes)}

theorem reports_request {req : List Bytes} {finish : Errno → Option (List Bytes) → Returned} :
    (Operation.request req finish).Reports s errno resp ↔
      (1 ≤ (finish errno resp).ret ↔ Succeeded resp) := by
  simp [Operation.Reports, Operation.result, Operation.Succeeds, Operation.requests]

theorem reports_of_status {req : List Bytes} {finish : Errno → Option (List Bytes) → Returned}
    (ret : 1 ≤ (finish errno resp).ret ↔ (Status.ofResp resp).ok = true) :
    (Operation.request req finish).Reports s errno resp :=
  reports_request.mpr (ret.trans ofResp_ok)

theorem reports_of_value {req : List Bytes} {finish : Errno → Option (List Bytes) → Returned}
    (ret : 1 ≤ (finish errno resp).ret ↔ (readStr resp).status.ok = true) :
    (Operation.request req finish).Reports s errno resp ↔ resp ≠ some [ascii "ok"] := by
  rw [reports_request, ret, readStr_ok]
  constructor
  · intro reports empty
    exact (reports.mpr ⟨[], empty⟩).2 empty
  · intro valued
    exact and_iff_left valued

theorem reports_always {req : List Bytes} {finish : Errno → Option (List Bytes) → Returned}
    (ret : (finish errno resp).ret = 1) :
    (Operation.request req finish).Reports s errno resp ↔ Succeeded resp := by
  simp [reports_request, ret]

theorem statusMethod_reports (req : List Bytes) :
    (statusMethod (.status req)).Reports s errno resp :=
  reports_of_status one_le_okResult

theorem setMethod_reports (req : List Bytes) :
    ((Command.status req).thenDo fun errno s =>
      ({ ret := if s.ok then 1 else -1, s, errno } : Returned)).Reports s errno resp := by
  apply reports_of_status
  change 1 ≤ (if (Status.ofResp resp).ok then (1 : Int) else -1) ↔ _
  cases (Status.ofResp resp).ok <;> simp

theorem int64Method_reports (req : List Bytes) :
    (int64Method (.int64 req)).Reports s errno resp ↔ resp ≠ some [ascii "ok"] := by
  apply reports_of_value
  rw [← readInt64_status resp errno]
  exact one_le_okResult

/-- With a NULL argument the result is the status of an earlier call. -/
theorem ListOp.reports (op : ListOp) :
    op.operation.Reports s errno resp ↔ (none ∈ op.pointers → s.ok = false) := by
  rcases op.operation_cases with ⟨null, table, caught, _⟩ | ⟨valid, req, made⟩
  · rw [caught]
    simp [Operation.Reports, Operation.result, Operation.Succeeds, Operation.requests,
      Returned.caught, one_le_okResult, null]
  · rw [made]
    have reports : (Operation.request req fun errno resp =>
        Returned.ofList (op.tableFor (readList resp).ret) op.cellSize resp errno).Reports s errno resp :=
      reports_of_status one_le_okResult
    simp [reports, valid]

end Reports

/-- When an operation's result tells whether this call succeeded: `DBSS_get`
and `DBSS_multi_set` return 1 in any case, a caught exception returns what an
earlier call left in `s`, and a reply that lacks its value counts as an error. -/
def Api.ReportsWhen (api : Api) (s : Status) (resp : Option (List Bytes)) : Prop :=
  match api with
  | .get _ | .multiSet _ => Succeeded resp
  | .list op => none ∈ op.pointers → s.ok = false
  | api => api.readsValue = true → resp ≠ some [ascii "ok"]

theorem Api.reports_iff (api : Api) (s : Status) (errno : Errno) (resp : Option (List Bytes)) :
    (1 ≤ (api.operation.result s errno resp).ret ↔ api.operation.Succeeds resp) ↔
      api.ReportsWhen s resp := by
  change api.operation.Reports s errno resp ↔ api.ReportsWhen s resp
  cases api with
  | get | multiSet => exact reports_always rfl
  | list op => exact op.reports
  | set | seti | setx | setxi =>
      exact iff_of_true (setMethod_reports _) (by simp [ReportsWhen, readsValue])
  | incr | hincr | hsize | hclear | zget | zincr | zsize | zclear | zrank | zrrank =>
      exact (int64Method_reports _).trans (by simp [ReportsWhen, readsValue])
  | hget | qpop =>
      exact (reports_of_value one_le_okResult).trans (by simp [ReportsWhen, readsValue])
  | _ => exact iff_of_true (statusMethod_reports _) (by simp [ReportsWhen, readsValue])

theorem Api.get_reports_lost_reply :
    ¬ (1 ≤ ((Api.get (ascii "key")).operation.result {} .success none).ret ↔
      (Api.get (ascii "key")).operation.Succeeds none) := by
  intro reports
  obtain ⟨_, rest, lost⟩ := reports.mp (by decide)
  cases lost

end Dbss
