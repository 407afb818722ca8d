import Dbss.Lua.Methods
import Dbss.Lua.Multi
import Dbss.Wrapper.Lists

namespace Dbss.Lua

open Dbss.Data Dbss.Util Dbss.Ssdb

/-! The methods of `DB.lua` that give back a list: what they ask for, and what
becomes of the strings of the reply. -/

/-- A call with its arguments, each of which may be nil where Lua lets it be. -/
inductive ListMethod where
  | keys (start endd : Option Bytes) (limit vlen : Option UInt64)
  | scan (start endd : Option Bytes) (limit vlen : Option UInt64)
  | rscan (start endd : Option Bytes) (limit vlen : Option UInt64)
  | hkeys (name start endd : Option Bytes) (limit vlen : Option UInt64)
  | hgetall (name : Option Bytes)
  | hscan (name start endd : Option Bytes) (limit vlen : Option UInt64)
  | hrscan (name start endd : Option Bytes) (limit vlen : Option UInt64)
  | zrange (name : Option Bytes) (offset : UInt64) (limit vlen : Option UInt64)
  | zrrange (name : Option Bytes) (offset : UInt64) (limit vlen : Option UInt64)
  | zkeys (name keyStart : Option Bytes) (scoreStart scoreEnd : Int) (limit vlen : Option UInt64)
  | zscan (name keyStart : Option Bytes) (scoreStart scoreEnd : Int) (limit vlen : Option UInt64)
  | zrscan (name keyStart : Option Bytes) (scoreStart scoreEnd : Int) (limit vlen : Option UInt64)

/-- The loops over what the C++ side has stored. -/
inductive Form where
  | single
  | pairs
  | table

namespace Form

def out : Form → Returned → Option Outcome
  | single => Mt.listed
  | pairs => Mt.paired
  | table => Mt.tabled

/-- What the loop makes of strings: it reads two at a time, or one. -/
def read : Form → List Bytes → Option Outcome
  | single, texts => some (.list texts)
  | pairs, texts => if texts.length % 2 = 0 then some (.pairs (pairUp texts)) else none
  | table, texts => if texts.length % 2 = 0 then some (.table (Mt.tableFrom (pairUp texts))) else none

end Form

namespace ListMethod

def operation : ListMethod → Operation (Option Outcome)
  | keys start endd limit vlen => Mt.keys start endd limit vlen
  | scan start endd limit vlen => Mt.scan start endd limit vlen
  | rscan start endd limit vlen => Mt.rscan start endd limit vlen
  | hkeys name start endd limit vlen => Mt.hkeys name start endd limit vlen
  | hgetall name => Mt.hgetall name
  | hscan name start endd limit vlen => Mt.hscan name start endd limit vlen
  | hrscan name start endd limit vlen => Mt.hrscan name start endd limit vlen
  | zrange name offset limit vlen => Mt.zrange name offset limit vlen
  | zrrange name offset limit vlen => Mt.zrrange name offset limit vlen
  | zkeys name keyStart scoreStart scoreEnd limit vlen => Mt.zkeys name keyStart scoreStart scoreEnd limit vlen
  | zscan name keyStart scoreStart scoreEnd limit vlen => Mt.zscan name keyStart scoreStart scoreEnd limit vlen
  | zrscan name keyStart scoreStart scoreEnd limit vlen => Mt.zrscan name keyStart scoreStart scoreEnd limit vlen

def form : ListMethod → Form
  | keys .. | hkeys .. | zkeys .. | zscan .. | zrscan .. => .single
  | scan .. | rscan .. | hscan .. | hrscan .. | zrange .. | zrrange .. => .pairs
  | hgetall _ => .table

/-- The strings of the request. -/
def strings : ListMethod → List (Option Bytes)
  | keys start endd _ _ | scan start endd _ _ | rscan start endd _ _ => [start, endd]
  | hkeys name start endd _ _ | hscan name start endd _ _ | hrscan name start endd _ _ => [name, start, endd]
  | hgetall name | zrange name .. | zrrange name .. => [name]
  | zkeys name keyStart .. | zscan name keyStart .. | zrscan name keyStart .. => [name, keyStart]

def word : ListMethod → Bytes
  | keys .. => ascii "keys"
  | scan .. => ascii "scan"
  | rscan .. => ascii "rscan"
  | hkeys .. => ascii "hkeys"
  | hgetall _ => ascii "hgetall"
  | hscan .. => ascii "hscan"
  | hrscan .. => ascii "hrscan"
  | zrange .. => ascii "zrange"
  | zrrange .. => ascii "zrrange"
  | zkeys .. => ascii "zkeys"
  | zscan .. => ascii "zscan"
  | zrscan .. => ascii "zrscan"

/-- The numbers of the request.  A `limit` of 0 stands for 10, too, but not over a hash. -/
def numbers : ListMethod → List Bytes
  | keys _ _ limit _ | scan _ _ limit _ | rscan _ _ limit _ => [strUInt64 (orDefault (limit.getD 10) 10)]
  | hkeys _ _ _ limit _ | hscan _ _ _ limit _ | hrscan _ _ _ limit _ => [strUInt64 (limit.getD 10)]
  | hgetall _ => []
  | zrange _ offset limit _ | zrrange _ offset limit _ =>
      [strUInt64 offset, strUInt64 (orDefault (limit.getD 10) 10)]
  | zkeys _ _ scoreStart scoreEnd limit _ | zscan _ _ scoreStart scoreEnd limit _
  | zrscan _ _ scoreStart scoreEnd limit _ =>
      [str scoreStart, str scoreEnd, strUInt64 (orDefault (limit.getD 10) 10)]

/-- What comes back without a request. -/
def unasked : ListMethod → Outcome
  | hkeys none .. | hscan none .. | hrscan none .. | hgetall none => .nothing
  | keys .. | hkeys .. | zkeys .. | zscan .. | zrscan .. => .list []
  | scan .. | rscan .. | hscan .. | hrscan .. | zrange .. | zrrange .. => .pairs []
  | hgetall _ => .table .empty

end ListMethod

section Loops

variable {vec : Vec} {i : Nat} {cell : Cell} {rest : List Cell} {texts : List Bytes}

theorem drop_cons (split : vec.cells.drop i = cell :: rest) :
    vec.cells[i]? = some cell ∧ vec.cells.drop (i + 1) = rest := by
  constructor
  · have first := congrArg (·[0]?) split
    simpa using first
  · have behind := congrArg (List.drop 1) split
    simpa using behind

theorem readList_stored (stored : (vec.cells.drop i).map Cell.text = texts) :
    Mt.readList vec i texts.length = some texts := by
  induction texts generalizing i with
  | nil => rfl
  | cons text texts ih =>
      obtain ⟨cell, others, split, rfl, further⟩ := List.map_eq_cons_iff.mp stored
      obtain ⟨here, behind⟩ := drop_cons split
      rw [List.length_cons, Mt.readList, here]
      simp only [ih (by rw [behind, further]), Option.map_some]

/-- An odd number of strings takes the last round past the end. -/
theorem readPairs_stored (stored : (vec.cells.drop i).map Cell.text = texts) :
    Mt.readPairs vec i ((texts.length + 1) / 2) = if texts.length % 2 = 0 then some (pairUp texts) else none := by
  induction texts using List.twoStepInduction generalizing i with
  | nil => rfl
  | singleton text =>
      obtain ⟨cell, others, split, _, further⟩ := List.map_eq_cons_iff.mp stored
      obtain ⟨here, behind⟩ := drop_cons split
      have nothing : vec.cells[i + 1]? = none := by
        rw [List.map_eq_nil_iff.mp further, List.drop_eq_nil_iff] at behind
        exact List.getElem?_eq_none behind
      simp [Mt.readPairs, here, nothing]
  | cons_cons first second texts ih _ =>
      obtain ⟨cell, others, split, rfl, further⟩ := List.map_eq_cons_iff.mp stored
      obtain ⟨here, behind⟩ := drop_cons split
      obtain ⟨next, others, split, rfl, rest⟩ := List.map_eq_cons_iff.mp (behind ▸ further)
      obtain ⟨there, after⟩ := drop_cons split
      have rounds : ((cell.text :: next.text :: texts).length + 1) / 2 = (texts.length + 1) / 2 + 1 := by
        simp only [List.length_cons]
        omega
      have later := ih (show (vec.cells.drop (i + 2)).map Cell.text = texts by rw [after, rest])
      have parity : (texts.length + 1 + 1) % 2 = texts.length % 2 := by omega
      rw [rounds, Mt.readPairs, here, there]
      simp only [later, List.length_cons, parity]
      split <;> rfl

end Loops

theorem Form.out_eq_read (form : Form) {returned : Returned} {table : Option Nat} {size : Bytes → Nat}
    {texts : List Bytes}
    (stored : returned.vec = some ⟨table, texts.map fun text => ⟨size text, cString text⟩, texts.length⟩) :
    form.out returned = form.read (texts.map cString) := by
  have cells : (List.drop 0 (texts.map fun text => (⟨size text, cString text⟩ : Cell))).map Cell.text =
      texts.map cString := by
    simp
  have one := @readList_stored ⟨table, _, texts.length⟩ 0 _ cells
  have two := @readPairs_stored ⟨table, _, texts.length⟩ 0 _ cells
  rw [List.length_map] at one two
  cases form with
  | single => simp [out, Mt.listed, stored, one, read]
  | pairs =>
      simp only [out, Mt.paired, stored, Option.getD_some, two, read, List.length_map]
      split <;> rfl
  | table =>
      simp only [out, Mt.tabled, stored, Option.getD_some, two, read, List.length_map]
      split <;> rfl

namespace ListMethod

variable (method : ListMethod)

/-- The call of the C API, unless a hash has no name. -/
def op : ListMethod → Option ListOp
  | keys start endd limit vlen => some (.keys (limit.getD 10) (vlen.getD 128) (start.map pass) (endd.map pass))
  | scan start endd limit vlen => some (.scan (limit.getD 10) (vlen.getD 128) (start.map pass) (endd.map pass))
  | rscan start endd limit vlen => some (.rscan (limit.getD 10) (vlen.getD 128) (start.map pass) (endd.map pass))
  | hkeys name start endd limit vlen =>
      name.map fun name => .hkeys (some (pass name)) (limit.getD 10) (vlen.getD 128) (start.map pass) (endd.map pass)
  | hgetall name => name.map fun name => .hgetall (some (pass name))
  | hscan name start endd limit vlen =>
      name.map fun name => .hscan (some (pass name)) (limit.getD 10) (vlen.getD 128) (start.map pass) (endd.map pass)
  | hrscan name start endd limit vlen =>
      name.map fun name => .hrscan (some (pass name)) (limit.getD 10) (vlen.getD 128) (start.map pass) (endd.map pass)
  | zrange name offset limit vlen => some (.zrange (name.map pass) offset (limit.getD 10) (vlen.getD 128))
  | zrrange name offset limit vlen => some (.zrrange (name.map pass) offset (limit.getD 10) (vlen.getD 128))
  | zkeys name keyStart scoreStart scoreEnd limit vlen =>
      some (.zkeys (name.map pass) (keyStart.map pass) scoreStart scoreEnd (limit.getD 10) (vlen.getD 128))
  | zscan name keyStart scoreStart scoreEnd limit vlen =>
      some (.zscan (name.map pass) (keyStart.map pass) scoreStart scoreEnd (limit.getD 10) (vlen.getD 128))
  | zrscan name keyStart scoreStart scoreEnd limit vlen =>
      some (.zrscan (name.map pass) (keyStart.map pass) scoreStart scoreEnd (limit.getD 10) (vlen.getD 128))

variable {method} {op : ListOp}

theorem operation_of_op (calls : method.op = some op) : method.operation = op.operation.map method.form.out := by
  cases method with
  | hkeys name | hgetall name | hscan name | hrscan name =>
      obtain ⟨name, rfl, rfl⟩ := Option.map_eq_some_iff.mp calls
      rfl
  | _ =>
      cases calls
      rfl

theorem pointers_of_op (calls : method.op = some op) : op.pointers = method.strings.map (Option.map pass) := by
  cases method with
  | hkeys name | hgetall name | hscan name | hrscan name =>
      obtain ⟨name, rfl, rfl⟩ := Option.map_eq_some_iff.mp calls
      rfl
  | _ =>
      cases calls
      rfl

/-- A hash without a name is reported before anything is called. -/
theorem op_eq_none (calls : method.op = none) :
    none ∈ method.strings ∧ method.operation = .thrown fun _ _ => some method.unasked := by
  cases method with
  | hkeys name | hgetall name | hscan name | hrscan name =>
      cases Option.map_eq_none_iff.mp calls
      exact ⟨by simp [strings], rfl⟩
  | _ => cases calls

theorem read_nil (calls : method.op = some op) : method.form.read [] = some method.unasked := by
  cases method with
  | hkeys name | hgetall name | hscan name | hrscan name =>
      obtain ⟨name, rfl, rfl⟩ := Option.map_eq_some_iff.mp calls
      rfl
  | _ => rfl

theorem requests_of_op (calls : method.op = some op) (whole : none ∉ method.strings) :
    op.operation.requests =
      [method.word :: method.strings.map (fun text => cString (text.getD [])) ++ method.numbers] := by
  have given (text : Option Bytes) (member : text ∈ method.strings) : ∃ bytes, text = some bytes :=
    Option.ne_none_iff_exists'.mp fun missing => whole (missing ▸ member)
  cases method with
  | keys start endd | scan start endd | rscan start endd | zkeys start endd | zscan start endd | zrscan start endd =>
      obtain ⟨start, rfl⟩ := given start (by simp [strings])
      obtain ⟨endd, rfl⟩ := given endd (by simp [strings])
      cases calls
      simp only [strings, List.map_cons, Option.getD_some, ← cString_pass start, ← cString_pass endd]
      rfl
  | hkeys name start endd | hscan name start endd | hrscan name start endd =>
      obtain ⟨name, rfl⟩ := given name (by simp [strings])
      obtain ⟨start, rfl⟩ := given start (by simp [strings])
      obtain ⟨endd, rfl⟩ := given endd (by simp [strings])
      cases calls
      simp only [strings, List.map_cons, Option.getD_some, ← cString_pass name, ← cString_pass start,
        ← cString_pass endd]
      rfl
  | hgetall name | zrange name | zrrange name =>
      obtain ⟨name, rfl⟩ := given name (by simp [strings])
      cases calls
      simp only [strings, List.map_cons, Option.getD_some, ← cString_pass name]
      rfl

theorem result_of_op (calls : method.op = some op) (s : Status) (errno : Errno) (resp : Option (List Bytes)) :
    method.operation.result s errno resp = method.form.read ((op.replied resp).map cString) := by
  obtain ⟨table, _, stored⟩ := op.vec_result s errno resp
  rw [operation_of_op calls, Operation.result_map, method.form.out_eq_read stored]

theorem none_mem_pointers (calls : method.op = some op) : none ∈ op.pointers ↔ none ∈ method.strings := by
  simp [pointers_of_op calls]

theorem outcome_asked (whole : none ∉ method.strings) (s : Status) (errno : Errno) (resp : Option (List Bytes)) :
    method.operation.requests =
        [method.word :: method.strings.map (fun text => cString (text.getD [])) ++ method.numbers] ∧
      method.operation.result s errno resp = method.form.read ((readList resp).ret.map cString) := by
  cases calls : method.op with
  | none => exact absurd (op_eq_none calls).1 whole
  | some op =>
      have valid := mt (none_mem_pointers calls).mp whole
      rw [result_of_op calls, ListOp.replied, if_neg valid, operation_of_op calls, Operation.requests_map]
      exact ⟨requests_of_op calls whole, rfl⟩

/-- A nil makes `std::string` throw, or stops the method before. -/
theorem outcome_unasked (missing : none ∈ method.strings) (s : Status) (errno : Errno) (resp : Option (List Bytes)) :
    method.operation.requests = [] ∧ method.operation.result s errno resp = some method.unasked := by
  cases calls : method.op with
  | none =>
      rw [(op_eq_none calls).2]
      exact ⟨rfl, rfl⟩
  | some op =>
      have null := (none_mem_pointers calls).mpr missing
      rw [result_of_op calls, ListOp.replied, if_pos null, operation_of_op calls, Operation.requests_map]
      refine ⟨?_, read_nil calls⟩
      rcases op.operation_cases with ⟨_, table, caught, _⟩ | ⟨valid, _⟩
      · rw [caught]
        rfl
      · exact absurd null valid

theorem read_eq_none (form : Form) (texts : List Bytes) :
    form.read texts = none ↔ form ≠ .single ∧ texts.length % 2 = 1 := by
  cases form <;> simp [Form.read]

/-- What a Lua program gets from a list method, whatever the server sends: the
strings of the reply one by one, in pairs or as a table.  The loop reads an
entry that is not there exactly when it goes in steps of two over an odd number
of strings. -/
theorem list_method_reads (method : ListMethod) (s : Status) (errno : Errno) (resp : Option (List Bytes)) :
    (none ∉ method.strings →
      method.operation.requests =
          [method.word :: method.strings.map (fun text => cString (text.getD [])) ++ method.numbers] ∧
        method.operation.result s errno resp = method.form.read ((readList resp).ret.map cString)) ∧
      (none ∈ method.strings →
        method.operation.requests = [] ∧ method.operation.result s errno resp = some method.unasked) ∧
      (method.operation.result s errno resp = none ↔
        none ∉ method.strings ∧ method.form ≠ .single ∧ (readList resp).ret.length % 2 = 1) := by
  refine ⟨fun whole => outcome_asked whole s errno resp, fun missing => outcome_unasked missing s errno resp, ?_⟩
  by_cases missing : none ∈ method.strings
  · simp [(outcome_unasked missing s errno resp).2, missing]
  · rw [(outcome_asked missing s errno resp).2, read_eq_none, List.length_map]
    simp [missing]

/-- A reply with a key and no value: the table of `DB:hgetall` takes what follows it in memory. -/
example : (Mt.hgetall (some (ascii "h"))).result {} .success (some [ascii "ok", ascii "k"]) = none := by
  rfl

end ListMethod

end Dbss.Lua
