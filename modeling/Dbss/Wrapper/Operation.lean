import Dbss.Client.Commands
import Dbss.Data.Memory
import Mathlib.Data.List.TakeWhile

namespace Dbss

open Dbss.Data Dbss.Util Dbss.Net

/-! What a method of class `DBSS` in `DBSS.cc` does: C strings in, one request,
and the status, the number, the list or the text that come out. -/

/-- The C string at a pointer: what `std::string(const char *)` takes and
`strcpy` copies.  A pointer argument is the memory it points to, up to a
terminator that always follows. -/
def cString (text : Bytes) : Bytes :=
  text.takeWhile (· ≠ 0)

def strlen (text : Bytes) : Nat :=
  (cString text).length

/-- `std::string(p)` where `p` may be NULL, which throws. -/
def stdString (p : Option Bytes) : Option Bytes :=
  p.map cString

@[simp] theorem cString_of_clean {text : Bytes} (clean : 0 ∉ text) : cString text = text := by
  apply List.takeWhile_eq_self_iff.mpr
  intro byte member
  simpa using ne_of_mem_of_not_mem member clean

theorem clean_cString (text : Bytes) : 0 ∉ cString text := by
  intro member
  simpa using List.mem_takeWhile_imp member

theorem cString_eq_self_iff {text : Bytes} : cString text = text ↔ 0 ∉ text := by
  constructor
  · intro whole
    exact whole ▸ clean_cString text
  · exact cString_of_clean

@[simp] theorem cString_cString (text : Bytes) : cString (cString text) = cString text :=
  cString_of_clean (clean_cString text)

@[simp] theorem cString_terminated (text more : Bytes) : cString (text ++ 0 :: more) = cString text := by
  induction text with
  | nil => rfl
  | cons byte rest ih =>
      by_cases zero : byte = 0
      · simp [cString, zero]
      · simpa [cString, zero] using ih

/-- A string the C++ side hands out: the bytes `new char[]` gave and the text
`strcpy` puts there, with its terminator. -/
structure Cell where
  size : Nat
  text : Bytes
deriving DecidableEq, Repr

def Cell.InBounds (cell : Cell) : Prop :=
  cell.text.length + 1 ≤ cell.size

instance (cell : Cell) : Decidable cell.InBounds :=
  inferInstanceAs (Decidable (_ ≤ _))

/-- A `vec_t` that an operation has filled.  `table` counts the bytes `malloc`
gave for `ptr`, or is `none` where `ptr` is left as it was; entry `i` of `cells`
is the one stored in `ptr[i]`.  Memory does not run out, and a copy that leaves
its cell is recorded by the cell's size, not by what it destroys. -/
structure Vec where
  table : Option Nat
  cells : List Cell
  count : Nat
deriving DecidableEq, Repr

def Vec.fresh (table : Option Nat) : Vec :=
  ⟨table, [], 0⟩

/-- The copy loop: a new cell for each string, stored at the next index. -/
def Vec.fill (vec : Vec) (cellSize : Bytes → Nat) : List Bytes → Vec
  | [] => vec
  | text :: rest =>
      { vec with
        cells := vec.cells ++ [⟨cellSize text, cString text⟩]
        count := vec.count + 1 : Vec }.fill cellSize rest

theorem Vec.fill_eq (vec : Vec) (cellSize : Bytes → Nat) (v : List Bytes) :
    vec.fill cellSize v =
      ⟨vec.table, vec.cells ++ v.map fun text => ⟨cellSize text, cString text⟩, vec.count + v.length⟩ := by
  induction v generalizing vec with
  | nil => simp [fill]
  | cons text rest ih =>
      rw [fill, ih]
      simp [Nat.add_comm 1, Nat.add_assoc]

theorem Vec.fill_fresh (table : Option Nat) (cellSize : Bytes → Nat) (v : List Bytes) :
    (Vec.fresh table).fill cellSize v =
      ⟨table, v.map fun text => ⟨cellSize text, cString text⟩, v.length⟩ := by
  simp [fill_eq, fresh]

/-- A write into a caller's buffer: where it starts and the bytes. -/
abbrev Write := Nat × Bytes

def strcpy (text : Bytes) : Write :=
  (0, cString text ++ [0])

def Fits (size : Nat) (writes : List Write) : Prop :=
  ∀ write ∈ writes, write.1 + write.2.length ≤ size

instance (size : Nat) (writes : List Write) : Decidable (Fits size writes) :=
  inferInstanceAs (Decidable (∀ write ∈ writes, write.1 + write.2.length ≤ size))

/-- The text that a zeroed buffer, large enough, holds after the writes. -/
def bufferText (writes : List Write) : Bytes :=
  let memory : Block := writes.foldl (fun memory write => memory.store write.1 write.2) fun _ => 0
  let extent := (writes.map fun write => write.1 + write.2.length).foldl max 0
  cString (memory.slice 0 extent)

/-- A buffer whose last write is a `strcpy` holds the string copied. -/
theorem bufferText_strcpy (before : List Write) (text : Bytes) :
    bufferText (before ++ [strcpy text]) = cString text := by
  unfold bufferText
  simp only [List.foldl_append, List.map_append, List.foldl_cons, List.foldl_nil, List.map_cons,
    List.map_nil, strcpy, Nat.zero_add]
  generalize before.foldl _ _ = memory
  generalize (before.map _).foldl max 0 = extent
  obtain ⟨rest, split⟩ := Nat.exists_eq_add_of_le (le_max_right extent (cString text ++ [0]).length)
  rw [split, Block.slice_add, Block.slice_store_same, List.append_assoc]
  exact (cString_terminated (cString text) _).trans (cString_cString text)

@[simp] theorem bufferText_single (text : Bytes) : bufferText [strcpy text] = cString text :=
  bufferText_strcpy [] text

@[simp] theorem strcpy_cString (text : Bytes) : strcpy (cString text) = strcpy text := by
  simp [strcpy]

/-- What a method leaves behind: its result, `s`, `errno`, the number it stores
in `*ret`, the list it fills and what it writes to the caller's `val`. -/
structure Returned where
  ret : Int
  s : Status
  errno : Errno
  num : Option Int := none
  vec : Option Vec := none
  writes : List Write := []
deriving DecidableEq, Repr

/-- A method's work: a request with what is done on the reply, or, where a
NULL argument makes `std::string` throw before it, the `catch` block, which
finds `s` as earlier calls left it. -/
inductive Operation (α : Type) where
  | request (req : List Bytes) (finish : Errno → Option (List Bytes) → α)
  | thrown (finish : Status → Errno → α)

namespace Operation

variable {α β : Type}

def map (next : α → β) : Operation α → Operation β
  | .request req finish => .request req fun errno resp => next (finish errno resp)
  | .thrown finish => .thrown fun s errno => next (finish s errno)

/-- The outcome on a state `s`, if `resp` is what `ClientImpl::request` returns. -/
def result (operation : Operation α) (s : Status) (errno : Errno) (resp : Option (List Bytes)) : α :=
  match operation with
  | .request _ finish => finish errno resp
  | .thrown finish => finish s errno

def requests : Operation α → List (List Bytes)
  | .request req _ => [req]
  | .thrown _ => []

/-- This very call got a reply, and the reply's code is `ok`. -/
def Succeeds (operation : Operation α) (resp : Option (List Bytes)) : Prop :=
  operation.requests ≠ [] ∧ Succeeded resp

@[simp] theorem result_map (next : α → β) (operation : Operation α) (s : Status) (errno : Errno)
    (resp : Option (List Bytes)) :
    (operation.map next).result s errno resp = next (operation.result s errno resp) := by
  cases operation <;> rfl

@[simp] theorem requests_map (next : α → β) (operation : Operation α) :
    (operation.map next).requests = operation.requests := by
  cases operation <;> rfl

end Operation

def Command.thenDo {α β : Type} (command : Command α) (finish : Errno → α → β) : Operation β :=
  .request command.req fun errno resp => finish errno (command.read errno resp)

@[simp] theorem Command.thenDo_requests {α β : Type} (command : Command α) (finish : Errno → α → β) :
    (command.thenDo finish).requests = [command.req] := rfl

@[simp] theorem Command.thenDo_result {α β : Type} (command : Command α) (finish : Errno → α → β)
    (s : Status) (errno : Errno) (resp : Option (List Bytes)) :
    (command.thenDo finish).result s errno resp = finish errno (command.read errno resp) := rfl

structure DBSS where
  client : ClientImpl
  s : Status

/-- What a returned call leaves: its outcome and the state after it. -/
structure DBSS.Call where
  returned : Returned
  this : DBSS
  host : Host

def Operation.perform (operation : Operation Returned) (this : DBSS) (host : Host) : Run DBSS.Call :=
  match operation with
  | .request req finish =>
      (this.client.request req host).bind fun call =>
        let returned := finish call.host.errno call.value
        .done ⟨returned, ⟨call.client, returned.s⟩, { call.host with errno := returned.errno }⟩
  | .thrown finish =>
      let returned := finish this.s host.errno
      .done ⟨returned, { this with s := returned.s }, { host with errno := returned.errno }⟩

/-- A call that returns has the outcome of its operation on the reply it got. -/
theorem Operation.perform_done {operation : Operation Returned} {this : DBSS} {host : Host}
    {call : DBSS.Call} (done : operation.perform this host = .done call) :
    ∃ errno resp, call.returned = operation.result this.s errno resp ∧
      call.this.s = call.returned.s ∧
      ∀ req ∈ operation.requests, ∃ answered,
        this.client.request req host = .done answered ∧ answered.value = resp ∧
          answered.client = call.this.client := by
  cases operation with
  | request req finish =>
      obtain ⟨answered, made, rest⟩ := Run.bind_eq_done.mp done
      cases rest
      refine ⟨answered.host.errno, answered.value, rfl, rfl, ?_⟩
      intro other same
      cases List.mem_singleton.mp same
      exact ⟨answered, made, rfl, rfl⟩
  | thrown finish =>
      cases done
      exact ⟨host.errno, none, rfl, rfl, by simp [requests]⟩

end Dbss
