import Dbss.Net.Link.Response
import Dbss.Util.Buffer.Reach

namespace Dbss.Net.Link

open Dbss.Data Dbss.Util Dbss.Ssdb

/-! A reply that has arrived in full, on a blocking and on a non-blocking
socket: the latter goes on reading, and what comes then can hide the reply. -/

/-- Follows the reads up to the one that brings the last of `left` bytes: the
capacity then and the reads that remain.  A read brings no more than there is
room for, and a full block is grown before it.  `none` where a read fails, would
block or ends the stream before that, or the schedule ends. -/
def arrival : List ReadOutcome → Int → Nat → Nat → Option (Int × List ReadOutcome)
  | [], _, _, _ => none
  | .eof :: _, _, _, _ => none
  | .fail code :: reads, total, held, left =>
      if code = .eintr then arrival reads total held left else none
  | .deliver more :: reads, total, held, left =>
      let total := if held = total then Buffer.grownTotal total else total
      let count := min (more + 1) (total - held).toNat
      if left ≤ count then some (total, reads)
      else arrival reads total (held + count) (left - count)

variable {link : Link} {host : Host} {input : Buffer} {whole : Bytes} {held : Nat} {total last ret : Int}
  {reads after : List ReadOutcome} {noblock : Bool} {rounds : Nat} {packet : List Bytes}

theorem arrival_grown (larger : total < Buffer.grownTotal total) (reads : List ReadOutcome) (held left : Nat) :
    arrival reads (if held = total then Buffer.grownTotal total else total) held left =
      arrival reads total held left := by
  by_cases full : (held : Int) = total
  · rw [if_pos full]
    induction reads with
    | nil => rfl
    | cons outcome reads ih =>
        cases outcome with
        | eof => rfl
        | fail code => rw [arrival, arrival, ih]
        | deliver more =>
            have roomy : (held : Int) ≠ Buffer.grownTotal total := by omega
            rw [arrival, arrival, if_neg roomy, if_pos full]
  · rw [if_neg full]

/-- The smallest capacity, from 8192 on, that `size` bytes fit in or that is outgrown on the way. -/
structure Ample (total : Int) (size : Nat) : Prop where
  capacity : Buffer.Capacity total
  atLeast : 8192 ≤ total
  least : total = 8192 ∨ ∃ smaller, Buffer.Capacity smaller ∧ smaller < size ∧ total = Buffer.grownTotal smaller

theorem Ample.start (size : Nat) : Ample 8192 size :=
  ⟨.grown .block (by decide), by decide, .inl rfl⟩

theorem Ample.grow {size : Nat} (ample : Ample total size) (short : total < size) (small : size < 536870912) :
    Ample (Buffer.grownTotal total) size ∧ total < Buffer.grownTotal total := by
  have atLeast := ample.atLeast
  obtain ⟨_, larger, fits⟩ := Buffer.grownTotal_spec (by omega : 0 ≤ total) (by omega)
  have nonneg := fits (by omega)
  have grown := (larger nonneg).1
  exact ⟨⟨.grown ample.capacity nonneg, by omega, .inr ⟨total, ample.capacity, short, rfl⟩⟩, grown⟩

theorem capacities_consecutive : ∀ smaller ∈ Buffer.capacities, ∀ size ∈ Buffer.capacities,
    smaller < size → size ≤ Buffer.grownTotal smaller → Buffer.grownTotal smaller = size := by
  decide

/-- The block is full exactly if the bytes are as many as a capacity. -/
theorem Ample.full_iff {size : Nat} (ample : Ample total size) (fits : (size : Int) ≤ total) :
    total = size ↔ Buffer.Capacity size ∧ 8192 ≤ size := by
  have atLeast := ample.atLeast
  constructor
  · intro full
    exact ⟨full ▸ ample.capacity, by omega⟩
  · rintro ⟨capacity, large⟩
    rcases ample.least with rfl | ⟨smaller, earlier, below, rfl⟩
    · omega
    · exact capacities_consecutive smaller earlier.mem size capacity.mem below fits

/-- The block holds the first `held` bytes of `whole` at its start, and the
others are on their way. -/
structure Holds (whole : Bytes) (held : Nat) (total : Int) (input : Buffer) (host : Host) : Prop where
  valid : input.WellFormed
  allocates : input.Allocates
  data : input.data = 0
  capacity : input.total = total
  within : held ≤ whole.length
  content : input.content = whole.take held
  ahead : host.inflight = whole.drop held

theorem Holds.space (holds : Holds whole held total input host) : input.space = total - held := by
  have size := holds.valid.size_eq
  have within := holds.within
  rw [holds.content, List.length_take, Nat.min_eq_left within] at size
  rw [holds.valid.space_eq, holds.capacity, holds.data, size, Int.sub_zero]

theorem Holds.idle (holds : Holds whole held total input host) (reads : List ReadOutcome) (asked : List Int)
    (errno : Errno) :
    Holds whole held total input { host with reads := reads, asked := asked, errno := errno } :=
  ⟨holds.valid, holds.allocates, holds.data, holds.capacity, holds.within, holds.content, holds.ahead⟩

theorem Holds.deliver (holds : Holds whole held total input host) (count : Nat)
    (room : (held : Int) + count ≤ total) (within : held + count ≤ whole.length) (reads : List ReadOutcome)
    (asked : List Int) :
    ((whole.drop held).take count).length = count ∧
      Holds whole (held + count) total ((input.write input.slot ((whole.drop held).take count)).incr count)
        { host with reads := reads, asked := asked, delivered := host.delivered + count } := by
  have width : ((whole.drop held).take count).length = count := by
    rw [List.length_take, List.length_drop]
    omega
  have space := holds.space
  obtain ⟨valid, content⟩ := holds.valid.write_incr_spec
    (show (((whole.drop held).take count).length : Int) ≤ input.space by omega)
  have split : host.inflight = (whole.drop held).take count ++ (whole.drop held).drop count := by
    rw [List.take_append_drop]
    exact holds.ahead
  have rest := Host.inflight_drop split
  rw [width, List.drop_drop] at rest
  rw [width] at valid content
  refine ⟨width, valid, holds.allocates, holds.data, holds.capacity, within, ?_, rest⟩
  rw [content, holds.content, List.take_add]

theorem Holds.fits (holds : Holds whole held total input host) : (held : Int) ≤ total := by
  have space := holds.space
  have nonneg := holds.valid.space_nonneg
  omega

/-- A read with room and something to come stores what it brings. -/
theorem readLoop_stores (holds : Holds whole held total input host) (room : (held : Int) < total)
    (missing : held < whole.length) (more : Nat) {count : Nat}
    (brings : count = min (min (more + 1) (total - held).toNat) (whole.length - held)) (noblock : Bool)
    (reads : List ReadOutcome) (ret : Int) :
    ∃ input' host', Holds whole (held + count) total input' host' ∧ host'.reads = reads ∧
      readLoop noblock (.deliver more :: reads) input host ret =
        if noblock then readLoop noblock reads input' host' (ret + count) else .done (ret + count, input', host') := by
  have space := holds.space
  obtain ⟨width, stored⟩ := holds.deliver count (by omega) (by omega) reads (host.asked ++ [total - held])
  have handed : Host.inflight { host with reads := reads, asked := host.asked ++ [total - held] } =
      whole.drop held := holds.ahead
  have taken : (whole.drop held).take (min (more + 1) (total - held).toNat) = (whole.drop held).take count := by
    rw [List.take_eq_take_iff, List.length_drop, brings]
    omega
  have some : (whole.drop held).take count ≠ [] := List.ne_nil_of_length_pos (by omega)
  refine ⟨_, _, stored, rfl, ?_⟩
  rw [readLoop, if_pos (by omega)]
  simp only [space, handed, taken, if_neg some, width]

/-- What is missing of `whole` will arrive. -/
structure Underway (whole : Bytes) (last : Int) (after : List ReadOutcome) (held : Nat) (total : Int)
    (input : Buffer) (host : Host) : Prop extends Holds whole held total input host where
  missing : held < whole.length
  arrives : arrival host.reads total held (whole.length - held) = some (last, after)

/-- A call of `read` returns before the last byte, with something read, or it
comes to the last byte and goes on from there if it does not block. -/
inductive Gets (whole : Bytes) (last : Int) (after : List ReadOutcome) (noblock : Bool) (total : Int) (limit : Nat)
    (run : Run (Int × Buffer × Host)) : Prop where
  | part {more held input host} (done : run = .done (more, input, host)) (positive : 0 < more)
      (under : Underway whole last after held total input host) (fewer : host.reads.length < limit)
  | all {more input host} (same : last = total) (positive : 0 < more)
      (holds : Holds whole whole.length total input host) (schedule : host.reads = after)
      (rest : run = if noblock then readLoop noblock after input host more else .done (more, input, host))

theorem Gets.mono {run : Run (Int × Buffer × Host)} {limit larger : Nat}
    (gets : Gets whole last after noblock total limit run) (more : limit ≤ larger) :
    Gets whole last after noblock total larger run := by
  cases gets with
  | part done positive under fewer => exact .part done positive under (by omega)
  | all same positive holds schedule rest => exact .all same positive holds schedule rest

theorem readLoop_full (holds : Holds whole held total input host) (full : ¬ (held : Int) < total) (noblock : Bool)
    (reads : List ReadOutcome) (ret : Int) : readLoop noblock reads input host ret = .done (ret, input, host) := by
  have space := holds.space
  cases reads with
  | nil => rw [readLoop, if_neg (by omega)]
  | cons outcome reads => rw [readLoop, if_neg (by omega)]

theorem readLoop_arrival (noblock : Bool) (under : Underway whole last after held total input host)
    (schedule : host.reads = reads) (room : (held : Int) < total) (nonneg : 0 ≤ ret) :
    Gets whole last after noblock total reads.length (readLoop noblock reads input host ret) := by
  induction reads generalizing held input host ret with
  | nil =>
      have arrives := under.arrives
      rw [schedule] at arrives
      cases arrives
  | cons outcome reads ih =>
      have space := under.space
      have missing := under.missing
      have arrives := under.arrives
      have later := Nat.le_succ reads.length
      rw [schedule] at arrives
      cases outcome with
      | eof => cases arrives
      | fail code =>
          rw [arrival] at arrives
          split at arrives
          · next interrupted =>
              rw [readLoop, if_pos (by omega)]
              simp only [if_pos interrupted]
              exact (ih ⟨under.idle reads (host.asked ++ [input.space]) code, missing, arrives⟩ rfl room nonneg).mono
                later
          · cases arrives
      | deliver more =>
          obtain ⟨count, brings⟩ : ∃ count, count = min (min (more + 1) (total - held).toNat) (whole.length - held) :=
            ⟨_, rfl⟩
          obtain ⟨input', host', holds, schedule', stored⟩ :=
            readLoop_stores under.toHolds room missing more brings noblock reads ret
          have notFull : (held : Int) ≠ total := by omega
          have added : 0 < ret + count := by omega
          rw [stored]
          simp only [arrival, if_neg notFull] at arrives
          split at arrives
          · next everything =>
              cases arrives
              have complete : held + count = whole.length := by omega
              rw [complete] at holds
              exact .all rfl added holds schedule' rfl
          · next part =>
              have less : held + count < whole.length := by omega
              have rest : arrival host'.reads total (held + count) (whole.length - (held + count)) =
                  some (last, after) := by
                rw [← arrives, schedule', brings]
                congr 1 <;> omega
              have stopped : host'.reads.length < (ReadOutcome.deliver more :: reads).length := by
                simp [schedule']
              cases noblock with
              | false => exact .part rfl added ⟨holds, less, rest⟩ stopped
              | true =>
                  rw [if_pos rfl]
                  by_cases roomy : ((held + count : Nat) : Int) < total
                  · exact (ih ⟨holds, less, rest⟩ schedule' roomy added.le).mono later
                  · exact .part (readLoop_full holds roomy true reads _) added ⟨holds, less, rest⟩ stopped

/-! ### `response` -/

/-- A non-blocking call of `read` that has brought the last byte goes on to the
end of the block, or to an outcome that ends it. -/
theorem readLoop_overruns {outcome : ReadOutcome} (holds : Holds whole held total input host) (got : 0 < ret)
    (schedule : host.reads = after) (next : after.find? (· ≠ .fail .eintr) = some outcome)
    (nothing : outcome.delivers = false) :
    ∃ value host', readLoop true after input host ret = .done (value, input, host') ∧
      Holds whole held total input host' ∧ (0 < value ↔ total = held ∨ outcome = .fail .ewouldblock) := by
  have fits := holds.fits
  have space := holds.space
  by_cases full : total = held
  · exact ⟨ret, host, readLoop_full holds (by omega) true after ret, holds, by simp [full, got]⟩
  · simp only [full, false_or]
    induction after generalizing host with
    | nil => cases next
    | cons other after ih =>
        rw [readLoop, if_pos (by omega)]
        by_cases interrupted : other = .fail .eintr
        · rw [List.find?_cons_of_neg (by simpa using interrupted)] at next
          subst interrupted
          obtain ⟨value, host', done, holds', iff⟩ :=
            ih (holds.idle after (host.asked ++ [input.space]) .eintr) rfl next
          exact ⟨value, host', done, holds', iff⟩
        · rw [List.find?_cons_of_pos (by simpa using interrupted)] at next
          obtain rfl := Option.some.inj next
          cases other with
          | deliver more => cases nothing
          | eof => exact ⟨0, _, rfl, holds.idle after (host.asked ++ [input.space]) host.errno, by simp⟩
          | fail code =>
              have retried : code ≠ .eintr := by simpa using interrupted
              have idle := holds.idle after (host.asked ++ [input.space]) code
              by_cases blocks : code = .ewouldblock
              · subst blocks
                exact ⟨ret, _, rfl, idle, by simp [got]⟩
              · simp only [if_neg retried, if_neg blocks]
                exact ⟨-1, _, rfl, idle, by simp [blocks]⟩

/-- What a round of `response` does from its `read` on, in a block of 8192 bytes or more. -/
def readThen (rounds : Nat) (link : Link) (host : Host) : Run (Call (Option (List Bytes))) :=
  (readLoop link.noblock host.reads link.input host 0).bind fun stored =>
    if stored.1 ≤ 0 then .done ⟨none, { link with input := stored.2.1 }, stored.2.2⟩
    else responseLoop rounds { link with input := stored.2.1 } stored.2.2

theorem Underway.part (under : Underway (encode packet) last after held total link.input host) :
    (framing maxPacketSize).Part link.input.content packet := by
  have content := under.content
  have missing := under.missing
  refine ⟨content ▸ List.take_prefix held _, fun whole => ?_⟩
  have lengths := congrArg List.length (content.symm.trans whole)
  rw [List.length_take, Nat.min_eq_left missing.le] at lengths
  exact missing.ne lengths

theorem Holds.nice (holds : Holds whole held total input host) : input.nice = input := by
  have half : ¬ input.data > input.total / 2 := by
    have := holds.data
    have := holds.valid.total_nonneg
    omega
  rw [Buffer.nice, if_neg half]

/-- `recv` makes room only where the block is full, and there by growing it. -/
theorem Underway.makeRoom (under : Underway whole last after held total input host)
    (ample : Ample total whole.length) (small : whole.length < 536870912) :
    input.makeRoom.1 = true ∧ ∃ total', (held : Int) < total' ∧ Ample total' whole.length ∧
      Underway whole last after held total' input.makeRoom.2 host := by
  have space := under.space
  have fits := under.fits
  have missing := under.missing
  by_cases full : (held : Int) = total
  · obtain ⟨grown, larger⟩ := ample.grow (by omega) small
    have equal := under.capacity
    obtain ⟨valid, content, data, _, _⟩ := under.valid.grow_spec
    obtain ⟨succeeded, allocates, _, total'⟩ := under.valid.grow_succeeds under.allocates (by omega)
    have made : input.makeRoom = (true, input.grow.2) := by
      rw [Buffer.makeRoom, if_pos (by omega), under.nice]
      simp only [if_pos (show input.space = 0 by omega), succeeded, ne_eq, not_false_eq_true, decide_true]
    have arrives := arrival_grown larger host.reads held (whole.length - held)
    rw [if_pos full, under.arrives] at arrives
    rw [made]
    refine ⟨rfl, Buffer.grownTotal total, by omega, grown, ⟨?_, missing, arrives⟩⟩
    exact ⟨valid, allocates, data.trans under.data, by rw [total', equal], under.within,
      content.trans under.content, under.ahead⟩
  · rw [Buffer.makeRoom_of_space (by omega)]
    exact ⟨rfl, total, by omega, ample, under⟩

theorem Underway.recv (under : Underway (encode packet) last after held total link.input host)
    (nonempty : packet ≠ []) (small : (encode packet).length ≤ maxPacketSize)
    (ample : Ample total (encode packet).length) (errno : Errno) :
    link.recv errno = ⟨some [], { link with input := link.input.makeRoom.2 }, errno⟩ := by
  have space := under.space
  have atLeast := ample.atLeast
  rw [recv_part under.valid nonempty small under.part]
  by_cases nothing : link.input.content = []
  · have count := under.valid.size_eq
    have lengths := congrArg List.length under.content
    rw [nothing, List.length_take, Nat.min_eq_left under.missing.le, List.length_nil] at lengths
    rw [if_pos nothing, Buffer.makeRoom_of_space (by omega)]
  · rw [if_neg nothing, if_pos (under.makeRoom ample (small.trans_lt (by decide))).1]

theorem responseLoop_part (link : Link) (under : Underway (encode packet) last after held total link.input host)
    (nonempty : packet ≠ []) (small : (encode packet).length ≤ maxPacketSize)
    (ample : Ample total (encode packet).length) (rounds : Nat) :
    ∃ total' input, (held : Int) < total' ∧ Ample total' (encode packet).length ∧
      Underway (encode packet) last after held total' input host ∧
      responseLoop (rounds + 1) link host = readThen rounds { link with input } host := by
  obtain ⟨_, total', room, ample', under'⟩ := under.makeRoom ample (small.trans_lt (by decide))
  refine ⟨total', link.input.makeRoom.2, room, ample', under', ?_⟩
  have large : link.input.makeRoom.2.total ≠ zeroBufferSize := by
    have := under'.capacity
    have := ample'.atLeast
    simp only [zeroBufferSize]
    omega
  rw [responseLoop_notReady (under.recv nonempty small ample host.errno), read, readThen]
  simp only [if_neg large, under'.nice]
  rw [Run.bind_assoc]
  rfl

theorem responseLoop_whole (link : Link) (holds : Holds (encode packet) (encode packet).length total link.input host)
    (nonempty : packet ≠ []) (small : (encode packet).length ≤ maxPacketSize) (rounds : Nat) :
    ∃ call, responseLoop (rounds + 1) link host = .done call ∧ call.value = some packet := by
  have here : link.input.content = encode packet ++ [] := by
    rw [holds.content, List.take_length, List.append_nil]
  obtain ⟨first, others, rfl⟩ := List.exists_cons_of_ne_nil nonempty
  rw [responseLoop, recv_packet holds.valid nonempty small here]
  exact ⟨_, rfl, rfl⟩

/-- The reply is returned, unless a non-blocking `read` meets something else
than an empty socket between its last byte and the end of the block. -/
theorem readThen_arrival {outcome : ReadOutcome} (link : Link)
    (under : Underway (encode packet) last after held total link.input host)
    (nonempty : packet ≠ []) (small : (encode packet).length ≤ maxPacketSize) (room : (held : Int) < total)
    (ample : Ample total (encode packet).length) (enough : host.reads.length ≤ rounds)
    (next : after.find? (· ≠ .fail .eintr) = some outcome) (nothing : outcome.delivers = false) :
    Ample last (encode packet).length ∧ ((encode packet).length : Int) ≤ last ∧
      ∃ call, readThen rounds link host = .done call ∧
        (call.value = some packet ↔
          link.noblock = false ∨ last = (encode packet).length ∨ outcome = .fail .ewouldblock) := by
  induction rounds generalizing link host held total with
  | zero =>
      have arrives := under.arrives
      have spent : host.reads = [] := List.eq_nil_of_length_eq_zero (by omega)
      rw [spent] at arrives
      cases arrives
  | succ rounds ih =>
      cases readLoop_arrival link.noblock under rfl room (le_refl 0) with
      | @part more held' input' host' done positive under' fewer =>
          obtain ⟨total', input'', room', ample', under'', loops⟩ :=
            responseLoop_part { link with input := input' } under' nonempty small ample rounds
          rw [readThen, done, Run.bind_done, if_neg (by omega), loops]
          exact ih { link with input := input'' } under'' room' ample' (by omega)
      | @all more input' host' same positive holds schedule done =>
          subst same
          refine ⟨ample, holds.fits, ?_⟩
          rw [readThen, done]
          by_cases folds : link.noblock = true
          · obtain ⟨value, host'', ends, holds', iff⟩ := readLoop_overruns holds positive schedule next nothing
            rw [← folds] at ends
            rw [if_pos folds, ends, Run.bind_done, folds]
            simp only [Bool.true_eq_false, false_or, ← iff]
            by_cases shown : 0 < value
            · obtain ⟨call, answered, returned⟩ :=
                responseLoop_whole { link with input := input' } holds' nonempty small rounds
              rw [folds] at answered
              rw [if_neg (by omega)]
              exact ⟨call, answered, by simp [returned, shown]⟩
            · rw [if_pos (by omega)]
              exact ⟨_, rfl, by simp [shown]⟩
          · obtain ⟨call, answered, returned⟩ :=
              responseLoop_whole { link with input := input' } holds nonempty small rounds
            rw [if_neg folds, Run.bind_done, if_neg (not_le.mpr positive)]
            exact ⟨call, answered, by simp [returned, folds]⟩

/-- The first `read` of a link replaces its block of eight bytes. -/
theorem response_new (inputBlock outputBlock : Block) {inputReallocs : List Bool} (outputReallocs : List Bool)
    (allocates : ∀ granted ∈ inputReallocs, granted = true) (sent : host.inflight = whole) (noblock : Bool) :
    ∃ input, Holds whole 0 8192 input host ∧
      response { new inputBlock outputBlock inputReallocs outputReallocs with noblock } host =
        readThen host.reads.length
          { new inputBlock outputBlock inputReallocs outputReallocs with noblock, input } host := by
  obtain ⟨fresh, made⟩ : ∃ fresh, (new inputBlock outputBlock inputReallocs outputReallocs).input = fresh := ⟨_, rfl⟩
  have receiving : Receiving fresh := made ▸ new_receiving allocates
  have total : fresh.total = 8 := made ▸ rfl
  have data : fresh.data = 0 := made ▸ rfl
  have content : fresh.content = [] := made ▸ rfl
  obtain ⟨valid, kept, unmoved, _, _⟩ := receiving.valid.grow_spec
  obtain ⟨_, later, _, total'⟩ := receiving.valid.grow_succeeds receiving.allocates (by omega)
  have holds : Holds whole 0 8192 fresh.grow.2 host :=
    ⟨valid, later, unmoved.trans data, by rw [total', total]; rfl, Nat.zero_le _, kept.trans content, sent⟩
  refine ⟨fresh.grow.2, holds, ?_⟩
  have idle : recv { new inputBlock outputBlock inputReallocs outputReallocs with noblock } host.errno = _ :=
    recv_empty (made ▸ receiving.valid) (by rw [made, content])
  rw [response, responseLoop_notReady idle, read, readThen, Run.bind_assoc]
  simp only [made, total, zeroBufferSize, if_true, holds.nice]
  rfl

/-- A reply that has arrived in full is returned by a blocking link.  On a
non-blocking one a failure or the end of the stream right after it hides it,
unless the reply fills the input block to the last byte. -/
theorem response_arrived_iff (inputBlock outputBlock : Block) {inputReallocs : List Bool}
    (outputReallocs : List Bool) (allocates : ∀ granted ∈ inputReallocs, granted = true)
    (nonempty : packet ≠ []) (small : (encode packet).length ≤ maxPacketSize)
    (sent : host.inflight = encode packet)
    (arrives : arrival host.reads 8192 0 (encode packet).length = some (last, after)) {outcome : ReadOutcome}
    (next : after.find? (· ≠ .fail .eintr) = some outcome) (nothing : outcome.delivers = false) (noblock : Bool) :
    (∃ call, response { new inputBlock outputBlock inputReallocs outputReallocs with noblock } host = .done call ∧
        call.value = some packet) ↔
      noblock = false ∨ (Buffer.Capacity (encode packet).length ∧ 8192 ≤ (encode packet).length) ∨
        outcome = .fail .ewouldblock := by
  obtain ⟨input, holds, response⟩ :=
    response_new inputBlock outputBlock outputReallocs allocates sent noblock
  obtain ⟨first, tail, start, _⟩ := encode_head nonempty
  have missing : 0 < (encode packet).length := by simp [start]
  obtain ⟨ample, fits, call, done, iff⟩ := readThen_arrival
    { new inputBlock outputBlock inputReallocs outputReallocs with noblock, input } ⟨holds, missing, arrives⟩ nonempty
    small (by decide) (Ample.start _) (le_refl _) next nothing
  rw [response, done, ← ample.full_iff fits, ← iff]
  constructor
  · rintro ⟨_, ⟨rfl⟩, value⟩
    exact value
  · exact fun value => ⟨call, rfl, value⟩

/-- In two reads with an interruption between them, and nothing after. -/
theorem response_arrived_iff_drained : ∃ call,
    response { new (fun _ => 0) (fun _ => 0) [] [] with noblock := true }
      (.sending (encode [[97]]) [.deliver 1, .fail .eintr, .deliver 100, .fail .ewouldblock]) = .done call ∧
      call.value = some [[97]] := by
  have arrives : arrival [.deliver 1, .fail .eintr, .deliver 100, .fail .ewouldblock] 8192 0 (encode [[97]]).length =
      some (8192, [.fail .ewouldblock]) := by
    decide
  have next : [ReadOutcome.fail .ewouldblock].find? (· ≠ .fail .eintr) = some (.fail .ewouldblock) := by
    decide
  exact (response_arrived_iff (fun _ => 0) (fun _ => 0) [] (List.forall_mem_nil _) (by decide) (by decide) rfl
    arrives next rfl true).mpr (.inr (.inr rfl))

/-- The peer sends its reply and closes. -/
theorem response_lost : ∃ call,
    response { new (fun _ => 0) (fun _ => 0) [] [] with noblock := true }
      (.sending (encode [[97]]) [.deliver 100, .eof]) = .done call ∧ call.value = none :=
  ⟨_, rfl, rfl⟩

end Dbss.Net.Link
