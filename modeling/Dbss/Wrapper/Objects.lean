import Dbss.Net.Link.Sockets

namespace Dbss

open Dbss.Data Dbss.Util Dbss.Net

/-! The life of `DBSS` objects: `DBSS_new`, `DBSS::connect` and `DBSS_gc`, and
the sockets they answer for. -/

/-- The objects in the order they were made in, without those deleted: of each
its `client.link`. -/
structure Objects where
  process : Process
  objects : List (Option (Option Nat))
deriving DecidableEq

namespace Objects

def empty : Objects :=
  ⟨.empty, []⟩

/-- `client.link` -/
def linkOf (state : Objects) (this : Nat) : Option Nat :=
  (state.objects.getD this none).join

/-- `ClientImpl::connect`, on a client that is new; the results of the system
calls are arguments. -/
def clientConnect (process : Process) (sock connected : Int) : Bool × Option Nat × Process :=
  let made := process.connect sock connected
  (made.1.isSome, made.1, made.2)

/-- `DBSS::connect`: the new client takes the place of the old one, and nothing
is deleted. -/
def connect (state : Objects) (this : Nat) (sock connected : Int) : Int × Objects :=
  let (opened, link, process) := clientConnect state.process sock connected
  (if opened then 1 else 0, ⟨process, state.objects.set this (some link)⟩)

/-- `DBSS_new`: the constructor connects and does not look at the result. -/
def new (state : Objects) (sock connected : Int) : Nat × Objects :=
  let this := state.objects.length
  (this, ({ state with objects := state.objects ++ [some none] }.connect this sock connected).2)

/-- `DBSS_gc`: the destructor of the client deletes its link, if there is one. -/
def gc (state : Objects) (this : Nat) (link : Option Nat) : Objects :=
  let process :=
    match link with
    | none => state.process
    | some ptr => (state.process.link ptr).elim state.process (state.process.delete ptr)
  ⟨process, state.objects.set this none⟩

end Objects

/-- What a program does with objects. -/
inductive ObjectAction where
  | new (sock connected : Int)
  | connect (this : Nat) (sock connected : Int)
  | gc (this : Nat)
deriving DecidableEq, Repr

/-- There is no step for results that the system does not give, nor on an object that is deleted. -/
def ObjectAction.step (state : Objects) : ObjectAction → Option Objects
  | new sock connected => if state.process.Gives sock then some (state.new sock connected).2 else none
  | connect this sock connected => do
      let _ ← state.objects.getD this none
      if state.process.Gives sock then some (state.connect this sock connected).2 else none
  | gc this => (state.objects.getD this none).map (state.gc this)

namespace Objects

/-- The socket that an object answers for. -/
def sockOf (state : Objects) (this : Nat) : Option Int :=
  (state.linkOf this).bind state.process.sockOf

/-- Each open socket belongs to one object, and each object has its own. -/
def Ledger (state : Objects) : Prop :=
  Balanced (state.process.opened : Set Int) state.sockOf

/-- An object that is connected is connected again. -/
def Reconnects (state : Objects) (action : ObjectAction) : Prop :=
  ∃ this sock connected, action = .connect this sock connected ∧ state.linkOf this ≠ none

/-- Objects have links of their own, with sockets. -/
def Linked (state : Objects) : Prop :=
  ∀ this ptr, state.linkOf this = some ptr →
    (∃ sock, state.process.sockOf ptr = some sock) ∧ ∀ other, state.linkOf other = some ptr → other = this

variable {state next : Objects} {this : Nat} {action : ObjectAction} {front : List ObjectAction}
  {process : Process} {entry : Option (Option Nat)} {sock : Int}

theorem object_lt (live : state.objects.getD this none = some link) : this < state.objects.length := by
  by_contra past
  simp [List.getD_eq_getElem?_getD, List.getElem?_eq_none (not_lt.mp past)] at live

theorem linkOf_set (inside : this < state.objects.length) :
    linkOf ⟨process, state.objects.set this entry⟩ = Function.update state.linkOf this entry.join := by
  funext other
  by_cases same : other = this
  · subst same
    simp [linkOf, inside]
  · simp [linkOf, List.getElem?_set_ne (Ne.symm same), Function.update_of_ne same]

theorem linkOf_grown : linkOf { state with objects := state.objects ++ [some none] } = state.linkOf := by
  funext other
  rcases lt_trichotomy other state.objects.length with before | rfl | past
  · simp [linkOf, List.getElem?_append_left before]
  · simp [linkOf]
  · have beyond : (state.objects ++ [some (none : Option Nat)]).length ≤ other := by simpa using past
    simp [linkOf, List.getElem?_eq_none past.le, List.getElem?_eq_none beyond]

theorem linkOf_end : state.linkOf state.objects.length = none := by
  simp [linkOf]

/-- The object has no link any more, or one that is new. -/
def Connects (state : Objects) (this : Nat) (next : Objects) : Prop :=
  next.process = state.process ∧ next.linkOf = Function.update state.linkOf this none ∨
    state.process.Acquires next.process ∧
      next.linkOf = Function.update state.linkOf this (some state.process.links.length)

theorem connects (gives : state.process.Gives sock) (connected : Int) (inside : this < state.objects.length) :
    state.Connects this (state.connect this sock connected).2 := by
  rcases (gives.connect connected).acquires with failed | ⟨link, acquires⟩
  · refine .inl ⟨?_, ?_⟩
    · simp [connect, clientConnect, failed]
    · simp only [connect, clientConnect, failed]
      exact linkOf_set inside
  · refine .inr ⟨acquires, ?_⟩
    simp only [connect, clientConnect, link]
    exact linkOf_set inside

/-- An action gives an object a new link or none, or deletes the link it has. -/
theorem step_cases (done : action.step state = some next) :
    ∃ this, (state.Connects this next ∧ (state.Reconnects action ↔ state.linkOf this ≠ none)) ∨
      (¬ state.Reconnects action ∧ next.linkOf = Function.update state.linkOf this none ∧
        next.process = (state.linkOf this).elim state.process fun ptr =>
          (state.process.link ptr).elim state.process (state.process.delete ptr)) := by
  cases action with
  | new sock connected =>
      obtain ⟨gives, same⟩ := Option.ite_none_right_eq_some.mp done
      cases same
      refine ⟨state.objects.length, .inl ⟨?_, ?_⟩⟩
      · have made := @connects { state with objects := state.objects ++ [some none] } state.objects.length sock gives
          connected (by simp)
        rwa [Connects, linkOf_grown] at made
      · rw [linkOf_end]
        exact iff_of_false (fun ⟨_, _, _, bad, _⟩ => nomatch bad) (by simp)
  | connect this sock connected =>
      obtain ⟨link, live, done⟩ := Option.bind_eq_some_iff.mp done
      obtain ⟨gives, same⟩ := Option.ite_none_right_eq_some.mp done
      cases same
      refine ⟨this, .inl ⟨connects gives connected (object_lt live), fun ⟨_, _, _, same, linked⟩ => ?_,
        fun linked => ?_⟩⟩
      · cases same
        exact linked
      · exact ⟨this, sock, connected, rfl, linked⟩
  | gc this =>
      obtain ⟨link, live, rfl⟩ := Option.map_eq_some_iff.mp done
      refine ⟨this, .inr ⟨?_, linkOf_set (object_lt live), ?_⟩⟩
      · rintro ⟨_, _, _, bad, _⟩
        cases bad
      have own : state.linkOf this = link := by rw [linkOf, live, Option.join_some]
      rw [own]
      cases link <;> rfl

theorem Linked.fresh (linked : state.Linked) {ptr : Nat} (held : state.linkOf this = some ptr) :
    ptr ≠ state.process.links.length := by
  rintro rfl
  obtain ⟨⟨sock, owned⟩, _⟩ := linked this _ held
  simp [Process.sockOf_end] at owned

theorem Linked.sockOf_none (linked : state.Linked) : state.sockOf this = none ↔ state.linkOf this = none := by
  rw [sockOf]
  cases held : state.linkOf this with
  | none => simp
  | some ptr =>
      obtain ⟨sock, owned⟩ := (linked this ptr held).1
      simp [owned]

/-- What an action does to the links and the sockets of all objects. -/
theorem Linked.effect (linked : state.Linked) (done : action.step state = some next) :
    ∃ this found, next.linkOf = Function.update state.linkOf this found ∧
      (∀ other ptr, other ≠ this → state.linkOf other = some ptr →
        next.process.sockOf ptr = state.process.sockOf ptr) ∧
      ((found = none ∧ next.process.opened = state.process.opened ∧
          (state.Reconnects action ↔ state.linkOf this ≠ none)) ∨
        (∃ sock, sock ∉ state.process.opened ∧ found = some state.process.links.length ∧
          next.process.opened = insert sock state.process.opened ∧
          next.process.sockOf state.process.links.length = some sock ∧
          (state.Reconnects action ↔ state.linkOf this ≠ none)) ∨
        (found = none ∧ ¬ state.Reconnects action ∧
          next.process.opened = (state.sockOf this).elim state.process.opened state.process.opened.erase)) := by
  obtain ⟨this, ⟨⟨same, links⟩ | ⟨⟨sock, free, opened, sockets⟩, links⟩, again⟩ | ⟨never, links, process⟩⟩ :=
    step_cases done
  · exact ⟨this, none, links, by simp [same], .inl ⟨rfl, by rw [same], again⟩⟩
  · refine ⟨this, _, links, fun other ptr _ held => ?_, .inr (.inl ⟨sock, free, rfl, opened, by simp [sockets], again⟩)⟩
    rw [sockets, Function.update_of_ne (linked.fresh held)]
  · refine ⟨this, none, links, ?_, .inr (.inr ⟨rfl, never, ?_⟩)⟩
    · intro other ptr different held
      cases mine : state.linkOf this with
      | none => rw [process, mine, Option.elim_none]
      | some own =>
          obtain ⟨⟨sock, owned⟩, alone⟩ := linked this own mine
          obtain ⟨link, live, _⟩ := Option.bind_eq_some_iff.mp owned
          have others : ptr ≠ own := fun same => different (alone other (same ▸ held))
          rw [process, mine, Option.elim_some, live, Option.elim_some,
            Process.sockOf_update (Process.link_delete state.process own link), Function.update_of_ne others]
    · cases mine : state.linkOf this with
      | none => rw [process, sockOf, mine, Option.elim_none, Option.bind_none, Option.elim_none]
      | some own =>
          obtain ⟨sock, owned⟩ := (linked this own mine).1
          obtain ⟨link, live, _⟩ := Option.bind_eq_some_iff.mp owned
          rw [process, sockOf, mine, Option.elim_some, live, Option.elim_some, Option.bind_some]
          exact Process.opened_release live (.inr ⟨show SocketAction.delete own = .delete own from rfl, rfl⟩)

theorem Linked.step (linked : state.Linked) (done : action.step state = some next) : next.Linked := by
  obtain ⟨this, found, links, kept, effect⟩ := linked.effect done
  -- the objects the action is not about
  have other {holder ptr : Nat} (different : holder ≠ this) (held : state.linkOf holder = some ptr) :
      (∃ sock, next.process.sockOf ptr = some sock) ∧
        ∀ other, other ≠ this → state.linkOf other = some ptr → other = holder := by
    obtain ⟨owned, alone⟩ := linked holder ptr held
    exact ⟨kept holder ptr different held ▸ owned, fun other _ => alone other⟩
  intro holder ptr
  rw [links]
  intro held
  cases found with
  | none =>
      obtain ⟨different, before⟩ := update_none_eq_some.mp held
      obtain ⟨owned, alone⟩ := other different before
      refine ⟨owned, fun another held => ?_⟩
      obtain ⟨different, before⟩ := update_none_eq_some.mp held
      exact alone another different before
  | some new =>
      obtain ⟨sock, _, same, _, owned, _⟩ : ∃ sock, sock ∉ state.process.opened ∧
          some new = some state.process.links.length ∧ _ := by
        simpa using effect
      cases same
      rcases update_some_eq_some.mp held with ⟨rfl, rfl⟩ | ⟨different, before⟩
      · refine ⟨⟨sock, owned⟩, fun another held => ?_⟩
        rcases update_some_eq_some.mp held with ⟨same, _⟩ | ⟨_, before⟩
        · exact same
        · exact absurd rfl (linked.fresh before)
      · obtain ⟨owned, alone⟩ := other different before
        refine ⟨owned, fun another held => ?_⟩
        rcases update_some_eq_some.mp held with ⟨_, new⟩ | ⟨different, before⟩
        · exact absurd new.symm (linked.fresh before)
        · exact alone another different before

theorem sockOf_update {found : Option Nat} (links : next.linkOf = Function.update state.linkOf this found)
    (kept : ∀ other ptr, other ≠ this → state.linkOf other = some ptr →
      next.process.sockOf ptr = state.process.sockOf ptr) :
    next.sockOf = Function.update state.sockOf this (found.bind next.process.sockOf) := by
  funext other
  rw [sockOf, links]
  by_cases same : other = this
  · subst same
    simp
  · rw [Function.update_of_ne same, Function.update_of_ne same, sockOf]
    cases held : state.linkOf other with
    | none => rfl
    | some ptr => exact kept other ptr same held

theorem Linked.reached {actions : List ObjectAction} (done : ran ObjectAction.step empty actions = some state) :
    state.Linked := by
  induction actions using List.reverseRecOn generalizing state with
  | nil =>
      cases done
      intro this ptr held
      simp [linkOf, empty] at held
  | append_singleton front action ih =>
      obtain ⟨before, earlier, last⟩ := ran_append_singleton.mp done
      exact (ih earlier).step last

theorem ledger_step (linked : state.Linked) (ledger : state.Ledger) (done : action.step state = some next) :
    next.Ledger ↔ ¬ state.Reconnects action := by
  obtain ⟨this, found, links, kept, effect⟩ := linked.effect done
  rw [Ledger, sockOf_update links kept]
  rcases effect with ⟨rfl, opened, again⟩ | ⟨sock, free, rfl, opened, owned, again⟩ | ⟨rfl, never, opened⟩
  · rw [opened, again, not_ne_iff, ← linked.sockOf_none, Option.bind_none]
    cases mine : state.sockOf this with
    | none => exact iff_of_true (by rwa [← mine, Function.update_eq_self]) rfl
    | some own => exact iff_of_false (ledger.lost mine (ledger.inUse mine) nofun) nofun
  · rw [opened, again, not_ne_iff, ← linked.sockOf_none, Option.bind_some, owned, Finset.coe_insert]
    cases mine : state.sockOf this with
    | none => exact iff_of_true (ledger.acquire (by simpa using free) mine) rfl
    | some own =>
        have used := ledger.inUse mine
        refine iff_of_false (ledger.lost mine (Set.mem_insert_of_mem _ used) fun same => free ?_) nofun
        simpa using Option.some.inj same ▸ used
  · refine iff_of_true ?_ never
    rw [opened, Option.bind_none]
    cases mine : state.sockOf this with
    | none => rwa [Option.elim_none, ← mine, Function.update_eq_self]
    | some own =>
        rw [Option.elim_some, Finset.coe_erase]
        exact ledger.release mine

/-- As long as no connected object is connected again, the open sockets are those
of the connected objects, one for each: an object that could not connect holds
none, and deleting an object closes its own.  Connecting one again leaves a
socket open for good. -/
theorem objects_ledger_iff (actions : List ObjectAction) :
    Throughout ObjectAction.step empty (fun _ => Ledger) actions ↔
      EachStep ObjectAction.step empty (fun _ state action => ¬ state.Reconnects action) actions := by
  refine throughout_iff ?_ fun front state action next reached => ledger_step (Linked.reached reached)
  have nobody : empty.sockOf = fun _ => none := by
    funext this
    simp [sockOf, linkOf, empty]
  rw [Ledger, nobody, show empty.process.opened = ∅ from rfl, Finset.coe_empty]
  exact Balanced.empty

end Objects

end Dbss
