import Dbss.Data.Holdings
import Dbss.Data.Runs
import Dbss.Util.Strings
import Mathlib.Data.Finset.Erase
import Mathlib.Data.Finset.Insert

namespace Dbss.Net

open Dbss.Data Dbss.Util

/-! The sockets of a process and the links that close them: `new Link`,
`Link::connect`, `listen`, `accept`, `close` and `delete`. -/

/-- What the constructor, `connect`, `listen` and `accept` put into a link that
concerns its socket.  `buffers` says whether there are any. -/
structure Endpoint where
  sock : Int
  remoteIp : Bytes
  remotePort : Int
  buffers : Bool
deriving DecidableEq, Repr

/-- `Link(bool is_server)` -/
def Endpoint.new (isServer : Bool) : Endpoint :=
  { sock := -1, remoteIp := [], remotePort := -1, buffers := !isServer }

/-- The number that the destructor will close. -/
def Endpoint.socket (link : Endpoint) : Option Int :=
  if link.sock ≥ 0 then some link.sock else none

/-- The numbers of the open sockets, and the links in the order they were made
in, without those deleted.  A `Link *` is a position in `links`. -/
structure Process where
  opened : Finset Int
  links : List (Option Endpoint)
deriving DecidableEq

namespace Process

def empty : Process :=
  ⟨∅, []⟩

def link (process : Process) (ptr : Nat) : Option Endpoint :=
  process.links.getD ptr none

/-! ### System calls -/

/-- What `socket` and `accept` may return. -/
def Gives (process : Process) (sock : Int) : Prop :=
  sock = -1 ∨ 0 ≤ sock ∧ sock ∉ process.opened

instance (process : Process) (sock : Int) : Decidable (process.Gives sock) :=
  inferInstanceAs (Decidable (_ ∨ _))

/-- `socket` and `accept` -/
def opens (process : Process) (sock : Int) : Process :=
  if sock = -1 then process else { process with opened := insert sock process.opened }

/-- `::close`, which fails on a number that is not open. -/
def shut (process : Process) (sock : Int) : Process :=
  { process with opened := process.opened.erase sock }

/-! ### The functions of `link.cpp`

The results of the system calls are arguments. -/

def make (process : Process) (link : Endpoint) : Option Nat × Process :=
  (some process.links.length, { process with links := process.links ++ [some link] })

/-- The label `sock_err` -/
def sockErr (process : Process) (sock : Int) : Option Nat × Process :=
  (none, if sock ≥ 0 then process.shut sock else process)

def connect (process : Process) (sock connected : Int) : Option Nat × Process :=
  let process := process.opens sock
  if sock = -1 then process.sockErr sock
  else if connected = -1 then process.sockErr sock
  else process.make { Endpoint.new false with sock }

def inetAddrStrLen : Nat := 16

/-- `snprintf` cuts the address to the size of `remote_ip`. -/
def listen (process : Process) (ip : Bytes) (port sock reuse bound listening : Int) : Option Nat × Process :=
  let process := process.opens sock
  if sock = -1 then process.sockErr sock
  else if reuse = -1 then process.sockErr sock
  else if bound = -1 then process.sockErr sock
  else if listening = -1 then process.sockErr sock
  else process.make { Endpoint.new true with sock, remoteIp := ip.take (inetAddrStrLen - 1), remotePort := port }

/-- The loop around `::accept`: the number it ends with, unless it is still waiting. -/
def acceptLoop : List (Int × Errno) → Option Int
  | [] => none
  | (clientSock, errno) :: rest =>
      if clientSock = -1 then
        if errno ≠ .eintr then some (-1) else acceptLoop rest
      else
        some clientSock

/-- What `accept` does after its loop, with the address of the peer. -/
def accept (process : Process) (clientSock : Int) (ip : Bytes) (port : Int) : Option Nat × Process :=
  let process := process.opens clientSock
  if clientSock = -1 then (none, process)
  else process.make { Endpoint.new false with sock := clientSock, remoteIp := ip, remotePort := port }

/-- `close()`, which leaves `sock` as it is. -/
def close (process : Process) (link : Endpoint) : Process :=
  if link.sock ≥ 0 then process.shut link.sock else process

/-- `delete` of a link, whose destructor closes. -/
def delete (process : Process) (ptr : Nat) (link : Endpoint) : Process :=
  let process := process.close link
  { process with links := process.links.set ptr none }

end Process

/-- What a program does with links. -/
inductive SocketAction where
  | new (isServer : Bool)
  | connect (sock connected : Int)
  | listen (ip : Bytes) (port sock reuse bound listening : Int)
  | accept (ptr : Nat) (attempts : List (Int × Errno)) (ip : Bytes) (port : Int)
  | close (ptr : Nat)
  | delete (ptr : Nat)
deriving DecidableEq, Repr

namespace SocketAction

/-- There is no step for results that the system does not give, nor on a link that is deleted. -/
def step (process : Process) : SocketAction → Option Process
  | new isServer => some (process.make (.new isServer)).2
  | connect sock connected => if process.Gives sock then some (process.connect sock connected).2 else none
  | listen ip port sock reuse bound listening =>
      if process.Gives sock then some (process.listen ip port sock reuse bound listening).2 else none
  | accept ptr attempts ip port => do
      let _ ← process.link ptr
      let clientSock ← Process.acceptLoop attempts
      if process.Gives clientSock then some (process.accept clientSock ip port).2 else none
  | close ptr => (process.link ptr).map process.close
  | delete ptr => (process.link ptr).map (process.delete ptr)

def closes (ptr : Nat) : SocketAction → Bool
  | close other => other == ptr
  | _ => false

/-- `close` has been called on the link. -/
def Closed (front : List SocketAction) (ptr : Nat) : Prop :=
  front.any (closes ptr) = true

instance (front : List SocketAction) (ptr : Nat) : Decidable (Closed front ptr) :=
  inferInstanceAs (Decidable (_ = true))

end SocketAction

namespace Process

open SocketAction (step Closed)

def sockOf (process : Process) (ptr : Nat) : Option Int :=
  (process.link ptr).bind Endpoint.socket

/-- The socket that is a link's own: its number, until `close` has been called on it. -/
def heldBy (front : List SocketAction) (process : Process) (ptr : Nat) : Option Int :=
  if Closed front ptr then none else process.sockOf ptr

/-- Each open socket belongs to one link, each link that has not been closed has
its socket, and no two have the same. -/
def Ledger (front : List SocketAction) (process : Process) : Prop :=
  Balanced (process.opened : Set Int) (process.heldBy front)

/-- A link that has been closed is closed or deleted, and its number is in use. -/
def Stale (front : List SocketAction) (process : Process) (action : SocketAction) : Prop :=
  ∃ ptr sock, (action = .close ptr ∨ action = .delete ptr) ∧ Closed front ptr ∧
    process.sockOf ptr = some sock ∧ sock ∈ process.opened

variable {process next : Process} {front : List SocketAction} {action : SocketAction} {link : Endpoint}
  {sock : Int} {ptr : Nat}

theorem link_lt (live : process.link ptr = some link) : ptr < process.links.length := by
  by_contra past
  simp [Process.link, List.getD_eq_getElem?_getD, List.getElem?_eq_none (not_lt.mp past)] at live

theorem sockOf_end (process : Process) : process.sockOf process.links.length = none := by
  simp [sockOf, Process.link]

theorem link_make (process : Process) (link : Endpoint) :
    (process.make link).2.link = Function.update process.link process.links.length (some link) := by
  funext ptr
  rcases lt_trichotomy ptr process.links.length with before | rfl | past
  · rw [Function.update_of_ne before.ne]
    simp [make, Process.link, List.getElem?_append_left before]
  · rw [Function.update_self]
    simp [make, Process.link]
  · have beyond : (process.links ++ [some link]).length ≤ ptr := by simpa using past
    rw [Function.update_of_ne past.ne']
    simp [make, Process.link, List.getElem?_eq_none past.le, List.getElem?_eq_none beyond]

theorem close_links (process : Process) (link : Endpoint) : (process.close link).links = process.links := by
  unfold close
  split <;> rfl

theorem close_opened (process : Process) (link : Endpoint) :
    (process.close link).opened = link.socket.elim process.opened process.opened.erase := by
  unfold close Endpoint.socket
  split <;> rfl

theorem link_delete (process : Process) (ptr : Nat) (link : Endpoint) :
    (process.delete ptr link).link = Function.update process.link ptr none := by
  funext other
  by_cases equal : other = ptr
  · subst equal
    rw [Function.update_self]
    simp only [delete, Process.link, close_links, List.getD_eq_getElem?_getD, List.getElem?_set_self']
    cases process.links[other]? <;> rfl
  · rw [Function.update_of_ne equal]
    simp [delete, Process.link, close_links, List.getElem?_set_ne (Ne.symm equal)]

theorem sockOf_update {found : Option Endpoint} (linked : next.link = Function.update process.link ptr found) :
    next.sockOf = Function.update process.sockOf ptr (found.bind Endpoint.socket) := by
  funext other
  rw [sockOf, linked]
  by_cases equal : other = ptr
  · subst equal
    simp
  · simp [sockOf, Function.update_of_ne equal]

/-! ### What one action does -/

/-- A call that opens a socket either fails and leaves nothing behind, or makes
a link for it. -/
def Gains (process : Process) (made : Option Nat × Process) : Prop :=
  made = (none, process) ∨ ∃ link : Endpoint, process.Gives link.sock ∧ link.sock ≠ -1 ∧
    made = (process.opens link.sock).make link

theorem Gives.failed (gives : process.Gives sock) : (process.opens sock).sockErr sock = (none, process) := by
  rcases gives with rfl | ⟨valid, free⟩
  · rfl
  · have real : sock ≠ -1 := by omega
    simp [opens, sockErr, shut, real, valid, Finset.erase_insert free]

theorem Gives.connect (gives : process.Gives sock) (connected : Int) :
    Gains process (process.connect sock connected) := by
  unfold Process.connect
  split
  · exact .inl gives.failed
  · split
    · exact .inl gives.failed
    · next valid _ => exact .inr ⟨{ Endpoint.new false with sock }, gives, valid, rfl⟩

theorem Gives.listen (gives : process.Gives sock) (ip : Bytes) (port reuse bound listening : Int) :
    Gains process (process.listen ip port sock reuse bound listening) := by
  unfold Process.listen
  split
  · exact .inl gives.failed
  · split
    · exact .inl gives.failed
    · split
      · exact .inl gives.failed
      · split
        · exact .inl gives.failed
        · next valid _ _ _ => exact .inr ⟨⟨sock, ip.take (inetAddrStrLen - 1), port, false⟩, gives, valid, rfl⟩

theorem Gives.accept (gives : process.Gives sock) (ip : Bytes) (port : Int) :
    Gains process (process.accept sock ip port) := by
  unfold Process.accept
  split
  · next none =>
      subst none
      exact .inl rfl
  · next valid => exact .inr ⟨{ Endpoint.new false with sock, remoteIp := ip, remotePort := port }, gives, valid, rfl⟩

/-- The process has one more socket, which belongs to one more link. -/
def Acquires (process next : Process) : Prop :=
  ∃ sock, sock ∉ process.opened ∧ next.opened = insert sock process.opened ∧
    next.sockOf = Function.update process.sockOf process.links.length (some sock)

theorem Gains.acquires {made : Option Nat × Process} (gains : Gains process made) :
    made = (none, process) ∨ made.1 = some process.links.length ∧ Acquires process made.2 := by
  rcases gains with rfl | ⟨link, gives, real, rfl⟩
  · exact .inl rfl
  · obtain ⟨valid, free⟩ := gives.resolve_left real
    have opened : process.opens link.sock = { process with opened := insert link.sock process.opened } := by
      rw [opens, if_neg real]
    rw [opened]
    have owned : link.socket = some link.sock := by simp [Endpoint.socket, valid]
    exact .inr ⟨rfl, link.sock, free, rfl,
      owned ▸ sockOf_update (link_make { process with opened := insert link.sock process.opened } link)⟩

theorem Gains.grows {made : Option Nat × Process} (gains : Gains process made) :
    process.links.length ≤ made.2.links.length := by
  rcases gains with rfl | ⟨link, _, real, rfl⟩
  · exact le_refl _
  · simp [make, opens, if_neg real]

/-- An action leaves the sockets alone, acquires one, or closes that of a link. -/
theorem step_cases (done : step process action = some next) :
    ((next.opened = process.opened ∧ next.sockOf = process.sockOf ∨ Acquires process next) ∧
        process.links.length ≤ next.links.length ∧ ∀ ptr, action ≠ .close ptr ∧ action ≠ .delete ptr) ∨
      ∃ ptr link, process.link ptr = some link ∧
        (action = .close ptr ∧ next = process.close link ∨ action = .delete ptr ∧ next = process.delete ptr link) := by
  have gained {made : Option Nat × Process} (gains : Gains process made) (same : made.2 = next) :
      (next.opened = process.opened ∧ next.sockOf = process.sockOf ∨ Acquires process next) ∧
        process.links.length ≤ next.links.length := by
    rw [← same]
    exact ⟨gains.acquires.imp (fun same => by simp [same]) And.right, gains.grows⟩
  cases action with
  | new isServer =>
      cases done
      refine .inl ⟨.inl ⟨rfl, ?_⟩, by simp [make], fun _ => ⟨nofun, nofun⟩⟩
      rw [sockOf_update (link_make process (.new isServer)), Function.update_eq_self_iff, sockOf_end]
      rfl
  | connect sock connected =>
      obtain ⟨gives, same⟩ := Option.ite_none_right_eq_some.mp done
      obtain ⟨effect, grows⟩ := gained (Gives.connect gives connected) (Option.some.inj same)
      exact .inl ⟨effect, grows, fun _ => ⟨nofun, nofun⟩⟩
  | listen ip port sock reuse bound listening =>
      obtain ⟨gives, same⟩ := Option.ite_none_right_eq_some.mp done
      obtain ⟨effect, grows⟩ := gained (Gives.listen gives ip port reuse bound listening) (Option.some.inj same)
      exact .inl ⟨effect, grows, fun _ => ⟨nofun, nofun⟩⟩
  | accept ptr attempts ip port =>
      obtain ⟨_, _, done⟩ := Option.bind_eq_some_iff.mp done
      obtain ⟨clientSock, _, done⟩ := Option.bind_eq_some_iff.mp done
      obtain ⟨gives, same⟩ := Option.ite_none_right_eq_some.mp done
      obtain ⟨effect, grows⟩ := gained (Gives.accept gives ip port) (Option.some.inj same)
      exact .inl ⟨effect, grows, fun _ => ⟨nofun, nofun⟩⟩
  | close ptr =>
      obtain ⟨link, live, rfl⟩ := Option.map_eq_some_iff.mp done
      exact .inr ⟨ptr, link, live, .inl ⟨rfl, rfl⟩⟩
  | delete ptr =>
      obtain ⟨link, live, rfl⟩ := Option.map_eq_some_iff.mp done
      exact .inr ⟨ptr, link, live, .inr ⟨rfl, rfl⟩⟩

/-! ### Whole runs -/

theorem closed_append (front : List SocketAction) (action : SocketAction) (ptr : Nat) :
    Closed (front ++ [action]) ptr ↔ Closed front ptr ∨ action = .close ptr := by
  have closes : action.closes ptr = true ↔ action = .close ptr := by
    cases action <;> simp [SocketAction.closes]
  simp [Closed, closes]

/-- Only links that have been made are closed. -/
theorem closed_lt (reached : ran step empty front = some process) (closed : Closed front ptr) :
    ptr < process.links.length := by
  induction front using List.reverseRecOn generalizing process with
  | nil => simp [Closed] at closed
  | append_singleton front action ih =>
      obtain ⟨before, earlier, done⟩ := ran_append_singleton.mp reached
      have either := (closed_append front action ptr).mp closed
      rcases step_cases done with ⟨_, grows, kept⟩ | ⟨other, link, live, ⟨rfl, rfl⟩ | ⟨rfl, rfl⟩⟩
      · exact (ih earlier (either.resolve_right (kept ptr).1)).trans_le grows
      · rw [close_links]
        rcases either with old | new
        · exact ih earlier old
        · cases new
          exact link_lt live
      · rw [delete, List.length_set, close_links]
        exact ih earlier (either.resolve_right nofun)

theorem heldBy_kept (kept : ∀ ptr, action ≠ .close ptr ∧ action ≠ .delete ptr)
    (sockets : next.sockOf = process.sockOf) : next.heldBy (front ++ [action]) = process.heldBy front := by
  funext ptr
  simp [heldBy, closed_append, (kept ptr).1, sockets]

theorem heldBy_acquire (kept : ∀ ptr, action ≠ .close ptr ∧ action ≠ .delete ptr)
    (sockets : next.sockOf = Function.update process.sockOf ptr (some sock)) (never : ¬ Closed front ptr) :
    next.heldBy (front ++ [action]) = Function.update (process.heldBy front) ptr (some sock) := by
  funext other
  by_cases same : other = ptr
  · subst same
    simp [heldBy, closed_append, (kept other).1, sockets, never]
  · simp [heldBy, closed_append, (kept other).1, sockets, Function.update_of_ne same]

/-- Closing or deleting a link takes away the socket it holds. -/
theorem heldBy_release
    (stepped : action = .close ptr ∧ next = process.close link ∨
      action = .delete ptr ∧ next = process.delete ptr link) :
    next.heldBy (front ++ [action]) = Function.update (process.heldBy front) ptr none := by
  funext other
  rcases stepped with ⟨rfl, rfl⟩ | ⟨rfl, rfl⟩
  · by_cases same : other = ptr
    · subst same
      simp [heldBy, closed_append]
    · simp [heldBy, closed_append, Function.update_of_ne same, Ne.symm same, sockOf, Process.link, close_links]
  · have sockets := sockOf_update (link_delete process ptr link)
    by_cases same : other = ptr
    · subst same
      simp [heldBy, sockets]
    · simp [heldBy, closed_append, sockets, Function.update_of_ne same]

theorem opened_release (live : process.link ptr = some link)
    (stepped : action = .close ptr ∧ next = process.close link ∨
      action = .delete ptr ∧ next = process.delete ptr link) :
    next.opened = (process.sockOf ptr).elim process.opened process.opened.erase := by
  have own : process.sockOf ptr = link.socket := by rw [sockOf, live, Option.bind_some]
  rcases stepped with ⟨_, rfl⟩ | ⟨_, rfl⟩ <;> exact own ▸ close_opened process link

theorem heldBy_idle (idle : process.heldBy front ptr = none) :
    Function.update (process.heldBy front) ptr none = process.heldBy front := by
  rw [← idle, Function.update_eq_self]

theorem ledger_step (reached : ran step empty front = some process) (ledger : process.Ledger front)
    (done : step process action = some next) :
    next.Ledger (front ++ [action]) ↔ ¬ process.Stale front action := by
  rcases step_cases done with ⟨effect, _, kept⟩ | ⟨ptr, link, live, stepped⟩
  · refine iff_of_true ?_ fun ⟨ptr, _, acts, _⟩ => acts.elim (kept ptr).1 (kept ptr).2
    rcases effect with ⟨opened, sockets⟩ | ⟨sock, free, opened, sockets⟩
    · rwa [Ledger, opened, heldBy_kept kept sockets]
    · have never : ¬ Closed front process.links.length := fun closed => (closed_lt reached closed).false
      rw [Ledger, opened, heldBy_acquire kept sockets never, Finset.coe_insert]
      exact ledger.acquire (by simpa using free) (by simp [heldBy, sockOf_end])
  · have acts : action = .close ptr ∨ action = .delete ptr := stepped.imp And.left And.left
    have stale : process.Stale front action ↔
        Closed front ptr ∧ ∃ sock, process.sockOf ptr = some sock ∧ sock ∈ process.opened := by
      constructor
      · rintro ⟨other, sock, acts', closed, owned, member⟩
        obtain rfl : other = ptr := by
          rcases acts with rfl | rfl <;> rcases acts' with same | same <;> cases same <;> rfl
        exact ⟨closed, sock, owned, member⟩
      · rintro ⟨closed, sock, owned, member⟩
        exact ⟨ptr, sock, acts, closed, owned, member⟩
    rw [Ledger, opened_release live stepped, heldBy_release stepped, stale]
    cases owned : process.sockOf ptr with
    | none =>
        have idle : process.heldBy front ptr = none := by simp [heldBy, owned]
        rw [heldBy_idle idle]
        exact iff_of_true ledger (by simp)
    | some sock =>
        rw [Option.elim_some, Finset.coe_erase]
        by_cases closed : Closed front ptr
        · rw [heldBy_idle (if_pos closed), ledger.stray_iff]
          simp [closed]
        · refine iff_of_true (ledger.release ?_) fun bad => closed bad.1
          simp [heldBy, closed, owned]

/-- As long as no link is closed or deleted that was closed before and whose
number is in use again, a process has one open socket for each link that has one
and has not been closed, and no other: calls that fail leave nothing open.  The
first such action ends this. -/
theorem ledger_iff (actions : List SocketAction) :
    Throughout step empty Ledger actions ↔
      EachStep step empty (fun front process action => ¬ process.Stale front action) actions := by
  refine throughout_iff ?_ fun front process action next => ledger_step
  have nobody : empty.heldBy [] = fun _ => none := by
    funext ptr
    simp [heldBy, sockOf, Process.link, empty]
  rw [Ledger, nobody, show empty.opened = ∅ from rfl, Finset.coe_empty]
  exact Balanced.empty

/-- The deleted link takes the socket of the second one with it. -/
example : (ran step empty [.connect 3 0, .close 0, .connect 3 0, .delete 0]).map
    (fun process => (process.opened, process.sockOf 1)) = some (∅, some 3) := by
  decide

end Process

end Dbss.Net
