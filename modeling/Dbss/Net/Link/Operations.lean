import Dbss.Net.Link.Atomic
import Dbss.Net.Link.Invariant
import Dbss.Net.Link.RoundTrip
import Dbss.Util.Buffer.Limits

/-! The calls of a `Link` reach its buffers through the operations of `Buffer`
only, so what these keep, a `Link` keeps. -/

namespace Dbss.Util.Buffer

open Dbss.Data

/-- The one buffer becomes the other by calls on it. -/
inductive Leads : Buffer → Buffer → Prop where
  | stop {buffer : Buffer} : Leads buffer buffer
  | call {before after : Buffer} (op : Op) (sized : op.Sized before) (later : Leads (op.call before).2 after) :
      Leads before after

variable {buffer before middle after : Buffer}

theorem Leads.trans (first : Leads before middle) (second : Leads middle after) : Leads before after := by
  induction first with
  | stop => exact second
  | call op sized _ ih => exact .call op sized (ih second)

theorem leads_once (op : Op) (sized : op.Sized before) : Leads before (op.call before).2 :=
  .call op sized .stop

/-- A block of a size that the code gives to blocks, and an allocator that
answers every call for it. -/
structure Granted (buffer : Buffer) : Prop where
  valid : buffer.WellFormed
  allocates : buffer.Allocates
  capacity : Capacity buffer.total

/-- A granted block that nothing has failed for, with its content in the lower half. -/
structure Roomy (buffer : Buffer) : Prop where
  granted : buffer.Granted
  alive : buffer.oom = false
  low : buffer.data ≤ buffer.total / 2

theorem Granted.call {op : Op} (granted : before.Granted) (sized : op.Sized before) :
    (op.call before).2.Granted :=
  ⟨(Op.call_acts granted.valid sized).1, (Op.call_widens granted.valid).allocates granted.allocates,
    Op.call_capacity granted.valid granted.capacity⟩

theorem Leads.granted (leads : Leads before after) (granted : before.Granted) : after.Granted := by
  induction leads with
  | stop => exact granted
  | call op sized _ ih => exact ih (granted.call sized)

theorem new_granted (fresh : Block) {reallocs : List Bool} (allocates : ∀ granted ∈ reallocs, granted = true) :
    (new fresh reallocs 8).Granted :=
  ⟨new_wellFormed (by decide) (by decide), allocates, .block⟩

theorem new_roomy (fresh : Block) {reallocs : List Bool} (allocates : ∀ granted ∈ reallocs, granted = true) :
    (new fresh reallocs 8).Roomy :=
  ⟨new_granted fresh allocates, rfl, show (0 : Int) ≤ 8 / 2 by decide⟩

theorem leads_makeRoom (buffer : Buffer) : Leads buffer buffer.makeRoom.2 := by
  unfold makeRoom
  split
  · simp only
    split
    · exact .call .nice trivial (leads_once .grow trivial)
    · exact leads_once .nice trivial
  · exact .stop

/-- The allocator lets a granted block reach any size up to 2^30. -/
theorem Granted.canReach {total target : Int} {reallocs : List Bool} (nonneg : 0 ≤ total)
    (allocates : ∀ granted ∈ reallocs, granted = true) (bound : target ≤ 1073741824) :
    CanReach target total reallocs := by
  induction distance : (target - total).toNat using Nat.strong_induction_on generalizing total reallocs with
  | _ distance ih =>
      by_cases large : target ≤ total
      · exact .enough large
      · obtain ⟨_, larger, fits⟩ := grownTotal_spec nonneg (by omega)
        have grows := (larger (fits (by omega))).1
        refine .grow (by omega) ?_ (fits (by omega)) (ih _ (by omega) (by omega) ?_ rfl)
        · cases reallocs with
          | nil => rfl
          | cons first rest => exact allocates first (by simp)
        · exact fun granted member => allocates granted (List.mem_of_mem_tail member)

end Dbss.Util.Buffer

namespace Dbss.Net.Link

open Dbss.Data Dbss.Util Dbss.Ssdb

variable {link sent : Link} {host : Host} {input output : Buffer} {noblock : Bool} {reads : List ReadOutcome}
  {writes : List WriteOutcome} {ret : Int} {resp : List Bytes}

theorem leads_begun (buffer : Buffer) : Buffer.Leads buffer (begun buffer) := by
  unfold begun
  split
  · exact Buffer.leads_once .grow trivial
  · exact .stop

theorem leads_nice (buffer : Buffer) : Buffer.Leads buffer buffer.nice :=
  Buffer.leads_once .nice trivial

theorem read_leads {call : Call Int} (done : link.read host = .done call) :
    Buffer.Leads link.input call.link.input := by
  obtain ⟨input, rounds, same⟩ := read_rounds done
  have looped : Buffer.Leads (begun link.input).nice input := by
    generalize (begun link.input).nice = start at rounds
    suffices ∀ state, Relation.ReflTransGen ReadRound (start, host) state → Buffer.Leads start state.1 from
      this _ rounds
    intro state rounds
    induction rounds with
    | refl => exact .stop
    | tail _ round ih =>
        cases round with
        | idle => exact ih
        | @store _ _ _ _ bytes _ schedule some fits => exact ih.trans (Buffer.leads_once (.fill bytes) fits)
  rw [same]
  exact (leads_begun _).trans ((leads_nice _).trans looped)

theorem write_leads {call : Call Int} (done : link.write host = .done call) :
    Buffer.Leads link.output call.link.output := by
  obtain ⟨written, looped, same⟩ := Run.bind_eq_done.mp done
  have rounds := writeLoop_rounds rfl looped
  have grown : Buffer.Leads link.output written.2.1 := by
    generalize written.2 = state at rounds ⊢
    induction rounds with
    | refl => exact leads_begun _
    | tail _ round ih =>
        cases round with
        | idle => exact ih
        | @take output _ _ len _ schedule some offered =>
            have within : (len : Int) ≤ output.size := by omega
            exact ih.trans (Buffer.leads_once (.decr len) ⟨by omega, within⟩)
  split at same
  · cases same
    exact grown
  · cases same
    exact grown.trans (leads_nice _)

theorem sendRecords_leads (output : Buffer) (sendable : Sendable resp) :
    Buffer.Leads output (sendRecords output resp) := by
  induction resp generalizing output with
  | nil => exact Buffer.leads_once (.append [10]) (show ([10] : Bytes).length < 2147483648 by simp)
  | cons record rest ih =>
      have short : (Buffer.Op.appendRecord record).Sized output := sendable record (by simp)
      have written : sendRecords output (record :: rest) = sendRecords (output.appendRecord record).2 rest := by
        simp only [sendRecords, List.foldl_cons]
      rw [written]
      exact .call _ short (ih _ fun other member => sendable other (by simp [member]))

theorem recv_leads (valid : link.input.WellFormed) (plain : PlainSsdb link.input.content) (errno : Errno) :
    Buffer.Leads link.input (link.recv errno).link.input := by
  by_cases empty : link.input.content = []
  · rw [recv_empty valid empty]
    exact .stop
  obtain ⟨records, verdict, reads⟩ := reads_total maxPacketSize link.input.content
  rw [recv_ssdb valid plain empty reads]
  cases verdict with
  | null => exact .stop
  | notReady => exact Buffer.leads_makeRoom _
  | complete used =>
      obtain ⟨ending, rest, _, splits, some, rfl⟩ := reads.complete
      have size := valid.size_eq
      rw [splits.content_eq, ← List.append_assoc (recordsText records), ← List.append_assoc] at size
      simp only [List.length_append] at size
      exact Buffer.leads_once (.decr _) ⟨by omega, by simp only [List.length_append]; omega⟩

/-! ### Memory for a packet -/

theorem begun_oom (granted : output.Granted) : (begun output).oom = output.oom := by
  unfold begun
  split
  · next small => exact (granted.valid.grow_succeeds granted.allocates (by rw [small]; decide)).2.2.1
  · rfl

/-- A call of `write` that does not fail leaves a roomy output roomy. -/
theorem write_roomy (granted : link.output.Granted) (alive : link.output.oom = false) {call : Call Int}
    (done : link.write host = .done call) (sent : call.value ≠ -1) : call.link.output.Roomy := by
  obtain ⟨output, rounds, same⟩ := write_rounds done
  have kept : output.WellFormed ∧ output.oom = false := by
    have starts := (begun_spec granted.valid).1
    have working := (begun_oom granted).trans alive
    generalize begun link.output = start at rounds starts working
    suffices ∀ state, Relation.ReflTransGen WriteRound (start, host) state →
        state.1.WellFormed ∧ state.1.oom = false from this _ rounds
    intro state rounds
    induction rounds with
    | refl => exact ⟨starts, working⟩
    | tail _ round ih =>
        cases round with
        | idle => exact ih
        | @take output _ _ len _ schedule some offered =>
            have within : (len : Int) ≤ output.size := by omega
            exact ⟨ih.1.decr (by omega) within, ih.2⟩
  obtain ⟨_, _, total, _, _, oom, low⟩ := kept.1.nice_spec
  have leads := (write_leads done).granted granted
  rw [same] at leads ⊢
  simp only [if_neg sent] at leads ⊢
  exact ⟨leads, oom.trans kept.2, by rw [total]; exact low⟩

theorem flushLoop_roomy {len : Int} {rounds : Nat} (granted : link.output.Granted) (alive : link.output.oom = false)
    (ready : link.output.content ≠ [] ∨ link.output.data ≤ link.output.total / 2) {call : Call Int}
    (done : flushLoop rounds link host len = .done call) (sent : call.value ≠ -1) : call.link.output.Roomy := by
  induction rounds generalizing link host len with
  | zero => cases done
  | succ rounds ih =>
      unfold flushLoop at done
      split at done
      · next empty =>
          cases done
          exact ⟨granted, alive, ready.resolve_left (not_not.mpr (granted.valid.empty_iff.mp empty))⟩
      · obtain ⟨written, happened, next⟩ := Run.bind_eq_done.mp done
        split at next
        · cases next
          exact absurd rfl sent
        · next passed =>
            obtain ⟨granted, alive, low⟩ := write_roomy granted alive happened passed
            exact ih granted alive (.inr low) next

theorem flush_roomy (granted : link.output.Granted) (alive : link.output.oom = false)
    (ready : link.output.content ≠ []) {call : Call Int} (done : link.flush host = .done call)
    (sent : call.value ≠ -1) : call.link.output.Roomy :=
  flushLoop_roomy granted alive (.inl ready) done sent

theorem peak_le (resp : List Bytes) : peak resp ≤ (encode resp).length + 16 := by
  induction resp with
  | nil => simp [peak, encode]
  | cons record rest ih =>
      have digits := decimal_length_pos record.length
      simp only [peak, encode, List.flatMap_cons, List.length_append, encodeRecord, List.length_cons] at ih ⊢
      omega

/-- A packet fits into an empty output that is roomy. -/
theorem send_alive (link : Link) (roomy : link.output.Roomy) (plain : link.redis = none)
    (empty : link.output.content = []) (legal : (framing maxPacketSize).Legal resp) :
    ∃ output, link.send resp = some (0, { link with output }) ∧ output.oom = false := by
  obtain ⟨nonempty, short⟩ := legal
  obtain ⟨granted, alive, low⟩ := roomy
  have bound := granted.capacity.bounds
  have size := granted.valid.size_eq
  have most := peak_le resp
  have packetBound : (encode resp).length ≤ 33554432 := short
  rw [empty, List.length_nil] at size
  refine ⟨_, send_ssdb plain nonempty, (sendRecords_alive_iff granted.valid alive (sendable_of_fits short)).mpr ?_⟩
  exact Buffer.Granted.canReach granted.valid.total_nonneg granted.allocates (by omega)

end Dbss.Net.Link
