import Mathlib.Logic.Relation
import Dbss.Net.Link
import Dbss.Util.Buffer.Content

namespace Dbss.Net.Link

open Dbss.Data Dbss.Util Relation

/-! What one round of the loops of `read` and `write` can do.  A call is a
sequence of rounds, whatever its mode and the outcomes it meets. -/

variable {link : Link} {input output : Buffer} {host : Host} {noblock : Bool} {ret : Int} {reads : List ReadOutcome}
  {writes : List WriteOutcome} {before after : Buffer × Host}

/-- The buffer that `read` and `write` start from: the block of eight bytes is never used. -/
def begun (buffer : Buffer) : Buffer :=
  if buffer.total = zeroBufferSize then buffer.grow.2 else buffer

theorem begun_spec {buffer : Buffer} (valid : buffer.WellFormed) :
    (begun buffer).WellFormed ∧ (begun buffer).content = buffer.content ∧ buffer.total ≤ (begun buffer).total := by
  unfold begun
  split
  · obtain ⟨grown, content, _⟩ := valid.grow_spec
    exact ⟨grown, content, valid.grow_total⟩
  · exact ⟨valid, rfl, le_refl _⟩

/-! ### `read` -/

def stored (input : Buffer) (bytes : Bytes) : Buffer :=
  (input.write input.slot bytes).incr bytes.length

/-- A round of `read` uses up an outcome and stores the bytes that it delivers. -/
inductive ReadRound : Buffer × Host → Buffer × Host → Prop where
  | idle {input : Buffer} {host : Host} {outcome : ReadOutcome} {reads : List ReadOutcome} (code : Errno)
      (schedule : host.reads = outcome :: reads) (nothing : outcome.delivers = false) (room : 0 < input.space) :
      ReadRound (input, host)
        (input, { host with reads := reads, asked := host.asked ++ [input.space], errno := code })
  | store {input : Buffer} {host : Host} {more : Nat} {reads : List ReadOutcome} {bytes rest : Bytes}
      (schedule : host.reads = .deliver more :: reads) (some : bytes ≠ []) (fits : bytes.length ≤ input.space)
      (arrived : host.inflight = bytes ++ rest) :
      ReadRound (input, host) (stored input bytes,
        { host with reads := reads, asked := host.asked ++ [input.space]
                    delivered := host.delivered + bytes.length })

theorem readLoop_rounds (schedule : host.reads = reads) {result : Int × Buffer × Host}
    (done : readLoop noblock reads input host ret = .done result) :
    ReflTransGen ReadRound (input, host) result.2 := by
  induction reads generalizing input host ret with
  | nil =>
      unfold readLoop at done
      split at done
      · cases done
      · cases done
        exact .refl
  | cons outcome reads ih =>
      unfold readLoop at done
      split at done
      · next room =>
          cases outcome with
          | fail code =>
              have idle := ReadRound.idle code schedule rfl room
              simp only at done
              split at done
              · exact .head idle (ih rfl done)
              · split at done <;> cases done <;> exact .single idle
          | eof =>
              cases done
              exact .single (.idle host.errno schedule rfl room)
          | deliver more =>
              simp only at done
              generalize taken : List.take _ _ = bytes at done
              obtain ⟨rest, split⟩ : bytes <+: host.inflight := taken ▸ List.take_prefix _ _
              have fits : (bytes.length : Int) ≤ input.space := by
                rw [← taken, List.length_take]
                omega
              split at done
              · cases done
              · next some =>
                  have store := ReadRound.store schedule some fits split.symm
                  split at done
                  · exact .head store (ih rfl done)
                  · cases done
                    exact .single store
      · cases done
        exact .refl

theorem read_rounds {call : Call Int} (done : link.read host = .done call) :
    ∃ input, ReflTransGen ReadRound ((begun link.input).nice, host) (input, call.host) ∧
      call.link = { link with input } := by
  obtain ⟨stored, looped, same⟩ := Run.bind_eq_done.mp done
  cases same
  exact ⟨_, readLoop_rounds rfl looped, rfl⟩

/-- The buffer has taken `bytes`, which were in front of those in flight. -/
structure Fetched (before after : Buffer × Host) (bytes : Bytes) : Prop where
  valid : after.1.WellFormed
  content : after.1.content = before.1.content ++ bytes
  inflight : before.2.inflight = bytes ++ after.2.inflight
  accepted : after.2.accepted = before.2.accepted

theorem ReadRound.fetched (round : ReadRound before after) (valid : before.1.WellFormed) :
    ∃ bytes, Fetched before after bytes := by
  cases round with
  | idle => exact ⟨[], valid, (List.append_nil _).symm, rfl, rfl⟩
  | store schedule some fits arrived =>
      obtain ⟨still, content⟩ := valid.write_incr_spec fits
      refine ⟨_, still, content, ?_, rfl⟩
      rw [arrived]
      exact congrArg (_ ++ ·) (Host.inflight_drop arrived).symm

theorem rounds_fetched (rounds : ReflTransGen ReadRound before after) (valid : before.1.WellFormed) :
    ∃ bytes, Fetched before after bytes := by
  induction rounds with
  | refl => exact ⟨[], valid, (List.append_nil _).symm, rfl, rfl⟩
  | tail _ round ih =>
      obtain ⟨bytes, early⟩ := ih
      obtain ⟨more, late⟩ := round.fetched early.valid
      refine ⟨bytes ++ more, late.valid, ?_, ?_, late.accepted.trans early.accepted⟩
      · rw [late.content, early.content, List.append_assoc]
      · rw [early.inflight, late.inflight, List.append_assoc]

/-- Whatever the mode, the outcomes and the result, `read` neither loses bytes
nor puts them in another order. -/
theorem read_fetched (valid : link.input.WellFormed) {call : Call Int} (done : link.read host = .done call) :
    ∃ input bytes, call.link = { link with input } ∧ Fetched (link.input, host) (input, call.host) bytes := by
  obtain ⟨input, rounds, same⟩ := read_rounds done
  obtain ⟨begins, content, _⟩ := begun_spec valid
  obtain ⟨ready, nice, _⟩ := begins.nice_spec
  obtain ⟨bytes, fetched⟩ := rounds_fetched rounds ready
  refine ⟨input, bytes, same, fetched.valid, ?_, fetched.inflight, fetched.accepted⟩
  rw [fetched.content, nice, content]

/-- A blocking `read` comes back empty-handed only after an outcome it gives up on. -/
theorem readLoop_spent (room : 0 < input.space) {result : Int × Buffer × Host}
    (schedule : host.reads = reads) (done : readLoop false reads input host 0 = .done result) :
    Spent ReadOutcome.Passes reads result.2.2.reads (0 < result.1) ∧ result.2.2.reads.length < reads.length := by
  induction reads generalizing host with
  | nil => simp [readLoop, room] at done
  | cons outcome reads ih =>
      rw [readLoop, if_pos room] at done
      cases outcome with
      | fail code =>
          simp only at done
          split at done
          · next interrupted =>
              obtain ⟨spent, fewer⟩ := ih rfl done
              exact ⟨.trans (.pass interrupted trivial) spent, by simp only [List.length_cons]; omega⟩
          · next interrupted =>
              split at done <;> cases done <;> exact ⟨.stop interrupted (by simp), by simp⟩
      | eof =>
          cases done
          exact ⟨.stop id (by simp), by simp⟩
      | deliver more =>
          simp only at done
          split at done
          · cases done
          · next some =>
              cases done
              have positive := List.length_pos_iff.mpr some
              exact ⟨.pass trivial (by simp only; omega), by simp⟩

/-- As many bytes have been delivered as outcomes that deliver have been used up, or more. -/
theorem ReadRound.supplies (round : ReadRound before after) :
    before.2.delivered + before.2.reads.countP ReadOutcome.delivers ≤
      after.2.delivered + after.2.reads.countP ReadOutcome.delivers := by
  cases round with
  | idle code schedule nothing => simp [schedule, nothing]
  | store schedule some =>
      have positive := List.length_pos_iff.mpr some
      simp only [schedule, List.countP_cons, ReadOutcome.delivers, if_true]
      omega

/-! ### `write` -/

/-- A round of `write` uses up an outcome and takes the bytes that it accepts. -/
inductive WriteRound : Buffer × Host → Buffer × Host → Prop where
  | idle {output : Buffer} {host : Host} {outcome : WriteOutcome} {writes : List WriteOutcome} (code : Errno)
      (schedule : host.writes = outcome :: writes) (nothing : outcome.accepts = false) :
      WriteRound (output, host) (output, { host with writes := writes, errno := code })
  | take {output : Buffer} {host : Host} {count len : Nat} {writes : List WriteOutcome}
      (schedule : host.writes = .accept count :: writes) (some : len ≠ 0) (offered : len ≤ output.size.toNat) :
      WriteRound (output, host)
        (output.decr len, { host with writes := writes, accepted := host.accepted ++ output.content.take len })

theorem writeLoop_rounds (schedule : host.writes = writes) {result : Option Int × Buffer × Host}
    (done : writeLoop noblock writes output host ret = .done result) :
    ReflTransGen WriteRound (output, host) result.2 := by
  induction writes generalizing output host ret with
  | nil =>
      unfold writeLoop at done
      split at done
      · cases done
      · cases done
        exact .refl
  | cons outcome writes ih =>
      unfold writeLoop at done
      split at done
      · next occupied =>
          cases outcome with
          | fail code =>
              have idle := @WriteRound.idle output _ _ _ code schedule rfl
              simp only at done
              split at done
              · exact .head idle (ih rfl done)
              · split at done <;> cases done <;> exact .single idle
          | accept count =>
              simp only at done
              split at done
              · next refused =>
                  cases done
                  have nothing : count = 0 := by omega
                  exact .single (.idle host.errno schedule (by simp [nothing, WriteOutcome.accepts]))
              · next some =>
                  have take := WriteRound.take schedule some (Nat.min_le_right count output.size.toNat)
                  split at done
                  · exact .head take (ih rfl done)
                  · cases done
                    exact .single take
      · cases done
        exact .refl

/-- Only an outcome that does not pass makes the loop give up. -/
theorem writeLoop_spent (schedule : host.writes = writes) {result : Option Int × Buffer × Host}
    (done : writeLoop noblock writes output host ret = .done result) :
    Spent WriteOutcome.Passes writes result.2.2.writes (result.1 ≠ none) ∧ ∀ count ∈ result.1, ret ≤ count := by
  induction writes generalizing output host ret with
  | nil =>
      unfold writeLoop at done
      split at done
      · cases done
      · cases done
        rw [schedule]
        exact ⟨.nothing (by simp), by simp⟩
  | cons outcome writes ih =>
      unfold writeLoop at done
      split at done
      · cases outcome with
        | fail code =>
            simp only at done
            split at done
            · next interrupted =>
                obtain ⟨spent, counts⟩ := ih rfl done
                exact ⟨.trans (.pass (.inl interrupted) trivial) spent, counts⟩
            · next interrupted =>
                split at done
                · next later =>
                    cases done
                    exact ⟨.pass (.inr later) (by simp), by simp⟩
                · next later =>
                    cases done
                    exact ⟨.stop (not_or.mpr ⟨interrupted, later⟩) (by simp), by simp⟩
        | accept count =>
            simp only at done
            split at done
            · cases done
              exact ⟨.pass trivial (by simp), by simp⟩
            · split at done
              · obtain ⟨spent, counts⟩ := ih rfl done
                refine ⟨.trans (.pass trivial trivial) spent, fun total member => ?_⟩
                have := counts total member
                omega
              · cases done
                refine ⟨.pass trivial (by simp), ?_⟩
                simp only [Option.mem_some_iff, forall_eq']
                omega
      · cases done
        rw [schedule]
        exact ⟨.nothing (by simp), by simp⟩

theorem write_begun (link : Link) (host : Host) :
    link.write host = (writeLoop link.noblock host.writes (begun link.output) host 0).bind fun written =>
      match written.1 with
      | none => .done ⟨-1, { link with output := written.2.1 }, written.2.2⟩
      | some ret => .done ⟨ret, { link with output := written.2.1.nice }, written.2.2⟩ := rfl

theorem write_rounds {call : Call Int} (done : link.write host = .done call) :
    ∃ output, ReflTransGen WriteRound (begun link.output, host) (output, call.host) ∧
      call.link = { link with output := if call.value = -1 then output else output.nice } := by
  obtain ⟨written, looped, same⟩ := Run.bind_eq_done.mp done
  obtain ⟨_, counts⟩ := writeLoop_spent rfl looped
  refine ⟨written.2.1, ?_, ?_⟩
  · split at same <;> cases same <;> exact writeLoop_rounds rfl looped
  · split at same
    · cases same
      rfl
    · next count some =>
        cases same
        have nonneg := counts count some
        simp only [show count ≠ -1 by omega, if_false]

/-- As many bytes have been accepted as outcomes that accept some have been used up, or more. -/
theorem WriteRound.supplies (round : WriteRound before after) :
    before.2.accepted.length + before.2.writes.countP WriteOutcome.accepts ≤
      after.2.accepted.length + after.2.writes.countP WriteOutcome.accepts := by
  cases round with
  | idle code schedule nothing => simp [schedule, nothing]
  | take schedule some offered =>
      simp only [schedule, List.countP_cons, List.length_append, List.length_take, Buffer.content_length]
      split <;> omega

theorem write_supplies {call : Call Int} (done : link.write host = .done call) :
    host.accepted.length + host.writes.countP WriteOutcome.accepts ≤
      call.host.accepted.length + call.host.writes.countP WriteOutcome.accepts := by
  obtain ⟨output, rounds, _⟩ := write_rounds done
  suffices ∀ after, ReflTransGen WriteRound (begun link.output, host) after →
      host.accepted.length + host.writes.countP WriteOutcome.accepts ≤
        after.2.accepted.length + after.2.writes.countP WriteOutcome.accepts from this _ rounds
  intro after rounds
  induction rounds with
  | refl => exact le_refl _
  | tail _ round ih => exact ih.trans round.supplies

end Dbss.Net.Link
