import Dbss.Net.Link.Rounds

namespace Dbss.Net.Link

open Dbss.Data Dbss.Util

/-! `Link::flush`: the output goes to the peer in order, and what a failed call
leaves unsent stays at the front of the buffer. -/

variable {link link' link'' : Link} {host host' host'' : Host} {output : Buffer}
  {writes : List WriteOutcome} {noblock : Bool} {ret : Int} {rounds : Nat}

/-- Bytes have moved from the buffer to the peer, and nothing else. -/
structure Drains (link : Link) (host : Host) (link' : Link) (host' : Host) : Prop where
  noblock : link'.noblock = link.noblock
  redis : link'.redis = link.redis
  input : link'.input = link.input
  peer : host'.peer = host.peer
  delivered : host'.delivered = host.delivered
  reads : host'.reads = host.reads
  valid : link'.output.WellFormed
  outOfMemory : link.output.oom = true → link'.output.oom = true
  progress : host.accepted <+: host'.accepted
  whole : host'.accepted ++ link'.output.content = host.accepted ++ link.output.content

theorem Drains.trans (first : Drains link host link' host') (second : Drains link' host' link'' host'') :
    Drains link host link'' host'' :=
  ⟨second.noblock.trans first.noblock, second.redis.trans first.redis, second.input.trans first.input,
    second.peer.trans first.peer, second.delivered.trans first.delivered,
    second.reads.trans first.reads, second.valid, second.outOfMemory ∘ first.outOfMemory,
    first.progress.trans second.progress, second.whole.trans first.whole⟩

theorem drains_output (valid : output.WellFormed) (content : output.content = link.output.content)
    (oom : link.output.oom = true → output.oom = true) :
    Drains link host { link with output } host :=
  ⟨rfl, rfl, rfl, rfl, rfl, rfl, valid, oom, List.prefix_rfl, by rw [content]⟩

/-! ### `write` -/

theorem drains_idle (host : Host) (valid : link.output.WellFormed) (writes : List WriteOutcome) (code : Errno) :
    Drains link host link { host with writes := writes, errno := code } :=
  ⟨rfl, rfl, rfl, rfl, rfl, rfl, valid, id, List.prefix_rfl, rfl⟩

theorem drains_accept (host : Host) (valid : link.output.WellFormed) (writes : List WriteOutcome) {len : Nat}
    (within : len ≤ link.output.size.toNat) :
    Drains link host { link with output := link.output.decr len }
      { host with writes := writes, accepted := host.accepted ++ link.output.content.take len } := by
  have width : (link.output.content.take len).length = len := by
    rw [List.length_take, Buffer.content_length]
    omega
  obtain ⟨still, left⟩ := valid.decr_spec (link.output.content.take_append_drop len).symm
  rw [width] at still left
  refine ⟨rfl, rfl, rfl, rfl, rfl, rfl, still, id, List.prefix_append _ _, ?_⟩
  rw [left, List.append_assoc, List.take_append_drop]

theorem WriteRound.drains {before after : Buffer × Host} (round : WriteRound before after) (link : Link)
    (valid : before.1.WellFormed) :
    Drains { link with output := before.1 } before.2 { link with output := after.1 } after.2 := by
  cases round with
  | @idle output host outcome writes code => exact @drains_idle { link with output } host valid writes code
  | @take output host count len writes schedule some offered =>
      exact @drains_accept { link with output } host valid writes len offered

/-- However the calls of `write(2)` turn out, the bytes leave in order; only an
outcome that does not pass makes the loop give up. -/
theorem writeLoop_drains (link : Link) (valid : link.output.WellFormed)
    (nonneg : 0 ≤ ret) {result : Option Int × Buffer × Host}
    (done : writeLoop noblock host.writes link.output host ret = .done result) :
    Drains link host { link with output := result.2.1 } result.2.2 ∧
      Spent WriteOutcome.Passes host.writes result.2.2.writes (result.1 ≠ none) ∧
      ∀ count ∈ result.1, 0 ≤ count := by
  have rounds := writeLoop_rounds rfl done
  obtain ⟨spent, counts⟩ := writeLoop_spent rfl done
  refine ⟨?_, spent, fun count member => nonneg.trans (counts count member)⟩
  clear spent
  generalize result.2 = after at rounds ⊢
  induction rounds with
  | refl => exact drains_output valid rfl id
  | tail _ round ih => exact ih.trans (round.drains link ih.valid)

/-- The room that `write` makes in a block of eight bytes. -/
theorem write_ready (host : Host) (valid : link.output.WellFormed) :
    Drains link host
      { link with output := begun link.output } host := by
  unfold begun
  obtain ⟨growValid, grown, _, _, memory⟩ := valid.grow_spec
  split
  · refine drains_output growValid grown fun already => ?_
    rcases memory with ⟨_, dead⟩ | ⟨_, same, _⟩
    · exact dead
    · exact same.trans already
  · exact drains_output valid rfl id

theorem write_drains (valid : link.output.WellFormed) {call : Call Int}
    (done : link.write host = .done call) :
    Drains link host call.link call.host ∧
      Spent WriteOutcome.Passes host.writes call.host.writes (call.value ≠ -1) ∧ -1 ≤ call.value := by
  have ready := write_ready host valid
  obtain ⟨written, happened, same⟩ := Run.bind_eq_done.mp done
  obtain ⟨drains, spent, counts⟩ := writeLoop_drains _ ready.valid (Int.le_refl 0) happened
  have moved := ready.trans drains
  obtain ⟨niceValid, nice, _, _, _, oom, _⟩ := drains.valid.nice_spec
  cases ret : written.1 with
  | none =>
      rw [ret] at same spent
      cases same
      exact ⟨moved, spent.congr (by simp), le_refl _⟩
  | some count =>
      have nonneg := counts count ret
      rw [ret] at same spent
      cases same
      refine ⟨moved.trans (drains_output niceValid nice oom.trans), spent.congr ?_, by simp only; omega⟩
      simp only [ne_eq, reduceCtorEq, not_false_eq_true, true_iff]
      omega

/-! ### `flush` -/

theorem flushLoop_drains (valid : link.output.WellFormed) {len : Int} (nonneg : 0 ≤ len)
    {call : Call Int} (done : flushLoop rounds link host len = .done call) :
    Drains link host call.link call.host ∧
      Spent WriteOutcome.Passes host.writes call.host.writes (call.value ≠ -1) ∧
      (call.value ≠ -1 → call.link.output.content = []) := by
  induction rounds generalizing link host len with
  | zero => cases done
  | succ rounds ih =>
      unfold flushLoop at done
      split at done
      · next empty =>
          cases done
          exact ⟨drains_output valid rfl id, .nothing (by simp only; omega), fun _ => valid.empty_iff.mp empty⟩
      · obtain ⟨written, happened, next⟩ := Run.bind_eq_done.mp done
        obtain ⟨drains, spent, least⟩ := write_drains valid happened
        split at next
        · next failed =>
            cases next
            exact ⟨drains, spent.congr (by simp [failed]), by simp⟩
        · next sent =>
            obtain ⟨later, rest, empty⟩ := ih drains.valid (by omega) next
            exact ⟨drains.trans later, (spent.congr (by simp [sent])).trans rest, empty⟩

theorem flush_drains (valid : link.output.WellFormed) {call : Call Int}
    (done : link.flush host = .done call) :
    Drains link host call.link call.host ∧
      Spent WriteOutcome.Passes host.writes call.host.writes (call.value ≠ -1) ∧
      (call.value ≠ -1 → call.link.output.content = []) :=
  flushLoop_drains valid (Int.le_refl 0) done

/-! ### A schedule that accepts enough -/

theorem writeLoop_returns {output : Buffer} (occupied : 0 < output.size)
    (passes : ∀ outcome ∈ writes, outcome.Passes) (some : 0 < writes.countP WriteOutcome.accepts) :
    ∃ result, writeLoop false writes output host ret = .done result ∧ result.2.2.writes.length < writes.length := by
  induction writes generalizing host with
  | nil => simp at some
  | cons outcome writes ih =>
      have later : ∀ other ∈ writes, other.Passes := fun other member => passes other (by simp [member])
      rw [writeLoop, if_pos occupied]
      cases outcome with
      | fail code =>
          simp only
          by_cases interrupted : code = .eintr
          · rw [if_pos interrupted]
            obtain ⟨result, done, fewer⟩ := @ih { host with writes := writes, errno := code } later
              (by simpa [WriteOutcome.accepts] using some)
            exact ⟨result, done, by simp only [List.length_cons]; omega⟩
          · have again : code = .ewouldblock := (passes (.fail code) (by simp)).resolve_left interrupted
            rw [if_neg interrupted, if_pos again]
            exact ⟨_, rfl, by simp⟩
      | accept count =>
          simp only
          split
          · exact ⟨_, rfl, by simp⟩
          · exact ⟨_, rfl, by simp⟩

theorem write_returns (valid : link.output.WellFormed) (blocking : link.noblock = false)
    (occupied : link.output.content ≠ []) (passes : ∀ outcome ∈ host.writes, outcome.Passes)
    (some : 0 < host.writes.countP WriteOutcome.accepts) :
    ∃ call, link.write host = .done call ∧ call.host.writes.length < host.writes.length := by
  obtain ⟨begins, content, _⟩ := begun_spec valid
  have size : 0 < (begun link.output).size := by
    rw [begins.size_eq, content]
    exact Int.natCast_pos.mpr (List.length_pos_iff.mpr occupied)
  obtain ⟨⟨value, output, last⟩, looped, fewer⟩ := @writeLoop_returns host host.writes 0 _ size passes some
  rw [write_begun, blocking, looped]
  cases value with
  | none => exact ⟨_, rfl, fewer⟩
  | some count => exact ⟨_, rfl, fewer⟩

theorem flushLoop_returns (valid : link.output.WellFormed) (blocking : link.noblock = false)
    (passes : ∀ outcome ∈ host.writes, outcome.Passes)
    (enough : link.output.content.length ≤ host.writes.countP WriteOutcome.accepts)
    (rounds_enough : host.writes.length < rounds) :
    ∃ call, flushLoop rounds link host len = .done call ∧
      host.accepted.length + host.writes.countP WriteOutcome.accepts ≤
        call.host.accepted.length + call.host.writes.countP WriteOutcome.accepts := by
  induction rounds generalizing link host len with
  | zero => omega
  | succ rounds ih =>
      rw [flushLoop]
      by_cases empty : link.output.empty = true
      · rw [if_pos empty]
        exact ⟨_, rfl, le_refl _⟩
      · have occupied : link.output.content ≠ [] := mt valid.empty_iff.mpr empty
        have some := List.length_pos_iff.mpr occupied
        obtain ⟨call, written, fewer⟩ := write_returns valid blocking occupied passes (by omega)
        obtain ⟨drains, spent, _⟩ := write_drains valid written
        have supply := write_supplies written
        have whole := congrArg List.length drains.whole
        simp only [List.length_append] at whole
        have sent : call.value ≠ -1 := by
          by_contra failed
          obtain ⟨outcome, member, bad⟩ := spent.failed (not_not.mpr failed)
          exact bad (passes outcome member)
        have later : ∀ outcome ∈ call.host.writes, outcome.Passes := fun outcome member =>
          passes outcome (spent.suffix.subset member)
        obtain ⟨result, done, more⟩ := @ih call.link call.host (len + call.value) drains.valid
          (drains.noblock.trans blocking) later (by omega) (by omega)
        refine ⟨result, ?_, supply.trans more⟩
        rw [if_neg empty, written, Run.bind_done, if_neg sent, done]

/-- Where every outcome passes and as many accept a byte as there are bytes to
send, all of them are sent. -/
theorem flush_returns (valid : link.output.WellFormed) (blocking : link.noblock = false)
    (passes : ∀ outcome ∈ host.writes, outcome.Passes)
    (enough : link.output.content.length ≤ host.writes.countP WriteOutcome.accepts) :
    ∃ call, link.flush host = .done call ∧ call.value ≠ -1 ∧
      host.accepted.length + host.writes.countP WriteOutcome.accepts ≤
        call.host.accepted.length + call.host.writes.countP WriteOutcome.accepts := by
  obtain ⟨call, done, supply⟩ := flushLoop_returns valid blocking passes enough (Nat.lt_succ_self _)
  obtain ⟨_, spent, _⟩ := flush_drains valid done
  refine ⟨call, done, fun failed => ?_, supply⟩
  obtain ⟨outcome, member, bad⟩ := spent.failed (not_not.mpr failed)
  exact bad (passes outcome member)

end Dbss.Net.Link
