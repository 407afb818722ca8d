import Dbss.Net.Link.Flush

namespace Dbss.Net.Link

open Dbss.Data Dbss.Util

/-! Every point of `Link::flush`, not only its return: no byte is lost or sent
twice on the way. -/

variable {link link' link'' : Link} {host host' host'' : Host} {writes : List WriteOutcome}
  {noblock : Bool} {ret len : Int} {rounds : Nat}

/-! ### The points of the loops -/

/-- The variable `ret` and the state at each test of the loop of `writeLoop`
and where it is left. -/
def writeLoopPoints (noblock : Bool) : List WriteOutcome → Buffer → Host → Int → List (Int × Buffer × Host)
  | [], output, host, ret => [(ret, output, host)]
  | outcome :: writes, output, host, ret =>
      (ret, output, host) ::
        if output.size > 0 then
          let host := { host with writes := writes }
          match outcome with
          | .fail code =>
              let host := { host with errno := code }
              if code = .eintr then writeLoopPoints noblock writes output host ret
              else [(ret, output, host)]
          | .accept count =>
              let len := min count output.size.toNat
              if len = 0 then
                [(ret, output, host)]
              else
                let host := { host with accepted := host.accepted ++ output.content.take len }
                let output := output.decr len
                let ret := ret + len
                if noblock then writeLoopPoints noblock writes output host ret
                else [(ret, output, host)]
        else
          []

def writePoints (link : Link) (host : Host) : List (Call Int) :=
  let output := if link.output.total = zeroBufferSize then link.output.grow.2 else link.output
  let moving := (writeLoopPoints link.noblock host.writes output host 0).map fun point =>
    ⟨point.1, { link with output := point.2.1 }, point.2.2⟩
  match link.write host with
  | .done call => moving ++ if call.value = -1 then [] else [call]
  | _ => moving

/-- The points of `flushLoop`, with the number of bytes counted so far. -/
def flushLoopPoints : Nat → Link → Host → Int → List (Call Int)
  | 0, _, _, _ => []
  | rounds + 1, link, host, len =>
      ⟨len, link, host⟩ ::
        if link.output.empty then
          []
        else
          ((link.writePoints host).map fun point => { point with value := len + point.value }) ++
            match link.write host with
            | .done call =>
                if call.value = -1 then []
                else flushLoopPoints rounds call.link call.host (len + call.value)
            | _ => []

def flushPoints (link : Link) (host : Host) : List (Call Int) :=
  flushLoopPoints (host.writes.length + 1) link host 0

/-! ### Conservation -/

/-- Bytes have moved from the buffer to the peer, `count` of them. -/
structure DrainsBy (link : Link) (host : Host) (count : Int) (link' : Link) (host' : Host) : Prop
    extends Drains link host link' host' where
  counted : (host'.accepted.length : Int) = host.accepted.length + count

theorem DrainsBy.trans {early late : Int} (first : DrainsBy link host early link' host')
    (second : DrainsBy link' host' late link'' host'') :
    DrainsBy link host (early + late) link'' host'' := by
  refine ⟨first.toDrains.trans second.toDrains, ?_⟩
  rw [second.counted, first.counted, Int.add_assoc]

theorem Drains.byNone (drains : Drains link host link' host') (same : host'.accepted = host.accepted) :
    DrainsBy link host 0 link' host' :=
  ⟨drains, by rw [same, Int.add_zero]⟩

theorem drainsBy_accept (host : Host) (valid : link.output.WellFormed) (writes : List WriteOutcome) {len : Nat}
    (within : len ≤ link.output.size.toNat) :
    DrainsBy link host len { link with output := link.output.decr len }
      { host with writes := writes, accepted := host.accepted ++ link.output.content.take len } := by
  refine ⟨drains_accept host valid writes within, ?_⟩
  simp only [List.length_append, List.length_take, Buffer.content_length]
  omega

theorem writeLoop_points (link : Link) (valid : link.output.WellFormed) {point : Int × Buffer × Host}
    (visited : point ∈ writeLoopPoints noblock writes link.output host ret) :
    DrainsBy link host (point.1 - ret) { link with output := point.2.1 } point.2.2 := by
  induction writes generalizing link host ret with
  | nil =>
      obtain rfl := List.mem_singleton.mp visited
      rw [Int.sub_self]
      exact (drains_output valid rfl id).byNone rfl
  | cons outcome writes ih =>
      rcases List.mem_cons.mp visited with rfl | later
      · rw [Int.sub_self]
        exact (drains_output valid rfl id).byNone rfl
      · clear visited
        split at later
        · cases outcome with
          | fail code =>
              have idle := (drains_idle host valid writes code).byNone rfl
              simp only at later
              split at later
              · have rest := idle.trans (ih link valid later)
                rwa [Int.zero_add] at rest
              · obtain rfl := List.mem_singleton.mp later
                rwa [Int.sub_self]
          | accept count =>
              simp only at later
              split at later
              · obtain rfl := List.mem_singleton.mp later
                rw [Int.sub_self]
                exact (drains_idle host valid writes host.errno).byNone rfl
              · have taken := drainsBy_accept host valid writes
                  (Nat.min_le_right count link.output.size.toNat)
                split at later
                · have rest := taken.trans (ih _ taken.valid later)
                  have total (taken ret : Int) : taken + (point.1 - (ret + taken)) = point.1 - ret := by omega
                  rwa [total] at rest
                · obtain rfl := List.mem_singleton.mp later
                  rwa [add_sub_cancel_left]
        · simp at later

theorem writeLoop_ends {output : Buffer} {result : Option Int × Buffer × Host}
    (done : writeLoop noblock writes output host ret = .done result) :
    ∃ last, (last, result.2) ∈ writeLoopPoints noblock writes output host ret ∧
      ∀ count ∈ result.1, count = last := by
  induction writes generalizing output host ret with
  | nil =>
      unfold writeLoop at done
      split at done
      · cases done
      · cases done
        exact ⟨ret, by simp [writeLoopPoints], by simp⟩
  | cons outcome writes ih =>
      unfold writeLoop at done
      unfold writeLoopPoints
      split at done
      · next pending =>
          rw [if_pos pending]
          cases outcome with
          | fail code =>
              simp only at done ⊢
              split at done
              · next interrupted =>
                  rw [if_pos interrupted]
                  obtain ⟨last, member, counts⟩ := ih done
                  exact ⟨last, List.mem_cons_of_mem _ member, counts⟩
              · next interrupted =>
                  rw [if_neg interrupted]
                  split at done
                  · cases done
                    exact ⟨ret, by simp, by simp⟩
                  · cases done
                    exact ⟨ret, by simp, by simp⟩
          | accept count =>
              simp only at done ⊢
              split at done
              · next refused =>
                  rw [if_pos refused]
                  cases done
                  exact ⟨ret, by simp, by simp⟩
              · next taken =>
                  rw [if_neg taken]
                  split at done
                  · next again =>
                      rw [if_pos again]
                      obtain ⟨last, member, counts⟩ := ih done
                      exact ⟨last, List.mem_cons_of_mem _ member, counts⟩
                  · next single =>
                      rw [if_neg single]
                      cases done
                      exact ⟨_, List.mem_cons_of_mem _ (List.mem_singleton_self _), by simp⟩
      · cases done
        exact ⟨ret, List.mem_cons_self, by simp⟩

/-! ### `write` -/

theorem write_points (valid : link.output.WellFormed) {point : Call Int}
    (visited : point ∈ link.writePoints host) : DrainsBy link host point.value point.link point.host := by
  have ready := (write_ready host valid).byNone rfl
  have moving {last : Int} {rest : Buffer × Host}
      (member : (last, rest) ∈ writeLoopPoints link.noblock host.writes
        (if link.output.total = zeroBufferSize then link.output.grow.2 else link.output) host 0) :
      DrainsBy link host last { link with output := rest.1 } rest.2 := by
    have moved := ready.trans (writeLoop_points _ ready.valid member)
    rwa [Int.zero_add, Int.sub_zero] at moved
  unfold writePoints at visited
  simp only at visited
  split at visited
  · next call done =>
      rcases List.mem_append.mp visited with early | last
      · obtain ⟨reached, member, rfl⟩ := List.mem_map.mp early
        exact moving member
      · split at last
        · simp at last
        · next sent =>
            obtain rfl := List.mem_singleton.mp last
            obtain ⟨written, happened, same⟩ := Run.bind_eq_done.mp done
            obtain ⟨last, member, counts⟩ := writeLoop_ends happened
            have moved := moving member
            obtain ⟨niceValid, nice, _, _, _, oom, _⟩ := moved.valid.nice_spec
            cases ret : written.1 with
            | none =>
                rw [ret] at same
                cases same
                exact absurd rfl sent
            | some count =>
                obtain rfl := counts count ret
                rw [ret] at same
                cases same
                have settled := moved.trans ((drains_output niceValid nice oom.trans).byNone rfl)
                rwa [Int.add_zero] at settled
  · obtain ⟨reached, member, rfl⟩ := List.mem_map.mp visited
    exact moving member

theorem write_ends (valid : link.output.WellFormed) {call : Call Int} (done : link.write host = .done call) :
    ∃ point ∈ link.writePoints host, point.link = call.link ∧ point.host = call.host ∧
      (call.value ≠ -1 → point.value = call.value) := by
  unfold writePoints
  simp only [done]
  by_cases failed : call.value = -1
  · obtain ⟨written, happened, same⟩ := Run.bind_eq_done.mp done
    obtain ⟨last, member, _⟩ := writeLoop_ends happened
    obtain ⟨_, _, counts⟩ := writeLoop_drains _ (write_ready host valid).valid (Int.le_refl 0) happened
    rw [if_pos failed, List.append_nil]
    cases ret : written.1 with
    | none =>
        rw [ret] at same
        cases same
        exact ⟨_, List.mem_map.mpr ⟨_, member, rfl⟩, rfl, rfl, fun sent => absurd rfl sent⟩
    | some count =>
        have nonneg := counts count ret
        rw [ret] at same
        cases same
        simp only at failed
        omega
  · rw [if_neg failed]
    exact ⟨call, by simp, rfl, rfl, fun _ => rfl⟩

/-! ### `flush` -/

theorem flushLoop_points (valid : link.output.WellFormed) {point : Call Int}
    (visited : point ∈ flushLoopPoints rounds link host len) :
    DrainsBy link host (point.value - len) point.link point.host := by
  induction rounds generalizing link host len with
  | zero => simp [flushLoopPoints] at visited
  | succ rounds ih =>
      rcases List.mem_cons.mp visited with rfl | later
      · rw [Int.sub_self]
        exact (drains_output valid rfl id).byNone rfl
      · clear visited
        split at later
        · simp at later
        · rcases List.mem_append.mp later with writing | again
          · obtain ⟨reached, member, rfl⟩ := List.mem_map.mp writing
            simp only [add_sub_cancel_left]
            exact write_points valid member
          · split at again
            · next call done =>
                split at again
                · simp at again
                · next sent =>
                    obtain ⟨reached, member, sameLink, sameHost, counts⟩ := write_ends valid done
                    have moved := write_points valid member
                    rw [sameLink, sameHost, counts sent] at moved
                    have rest := moved.trans (ih moved.valid again)
                    have total (sent : Int) : sent + (point.value - (len + sent)) = point.value - len := by omega
                    rwa [total] at rest
            · simp at again

theorem flushLoop_ends (valid : link.output.WellFormed) {call : Call Int}
    (done : flushLoop rounds link host len = .done call) :
    ∃ point ∈ flushLoopPoints rounds link host len, point.link = call.link ∧ point.host = call.host ∧
      (call.value ≠ -1 → point.value = call.value) := by
  induction rounds generalizing link host len with
  | zero => cases done
  | succ rounds ih =>
      unfold flushLoop at done
      unfold flushLoopPoints
      split at done
      · cases done
        exact ⟨_, List.mem_cons_self, rfl, rfl, fun _ => rfl⟩
      · next pending =>
          obtain ⟨written, happened, next⟩ := Run.bind_eq_done.mp done
          rw [if_neg pending]
          split at next
          · next failed =>
              cases next
              obtain ⟨reached, member, sameLink, sameHost, _⟩ := write_ends valid happened
              exact ⟨_, List.mem_cons_of_mem _ (List.mem_append_left _ (List.mem_map.mpr ⟨reached, member, rfl⟩)),
                sameLink, sameHost, fun sent => absurd rfl sent⟩
          · next sent =>
              obtain ⟨reached, member, same⟩ := ih (write_drains valid happened).1.valid next
              refine ⟨reached, List.mem_cons_of_mem _ (List.mem_append_right _ ?_), same⟩
              simp only [happened, if_neg sent]
              exact member

/-- The peer has accepted `count` bytes since `host`, and they and what is still
in the output of `link'` make up the output of `link`. -/
def Accounts (link : Link) (host : Host) (count : Int) (link' : Link) (host' : Host) : Prop :=
  ∃ sent, host'.accepted = host.accepted ++ sent ∧ sent ++ link'.output.content = link.output.content ∧
    count = sent.length

theorem DrainsBy.accounts {count : Int} (drains : DrainsBy link host count link' host') :
    Accounts link host count link' host' := by
  obtain ⟨sent, accepted⟩ := drains.progress
  have counted := drains.counted
  have whole := drains.whole
  rw [← accepted, List.append_assoc] at whole
  rw [← accepted, List.length_append] at counted
  exact ⟨sent, accepted.symm, List.append_cancel_left whole, by omega⟩

/-- No byte is lost or sent twice at any point of `flush`.  It returns the
number of bytes accepted once none is left, and -1 only after a hard error. -/
theorem flush_accounts (host : Host) (valid : link.output.WellFormed) :
    (∀ point ∈ link.flushPoints host, Accounts link host point.value point.link point.host) ∧
      ∀ call, link.flush host = .done call →
        (∃ point ∈ link.flushPoints host, point.link = call.link ∧ point.host = call.host) ∧
          (0 ≤ call.value ∧ Accounts link host call.value call.link call.host ∧ call.link.output.content = [] ∨
            call.value = -1 ∧ (∃ count, Accounts link host count call.link call.host) ∧
              ∃ outcome ∈ used host.writes call.host.writes, ¬ outcome.Passes) := by
  have points {point : Call Int} (visited : point ∈ link.flushPoints host) :
      Accounts link host point.value point.link point.host := by
    have drains := (flushLoop_points valid visited).accounts
    rwa [Int.sub_zero] at drains
  refine ⟨fun point => points, fun call done => ?_⟩
  obtain ⟨last, member, sameLink, sameHost, counts⟩ := flushLoop_ends valid done
  obtain ⟨_, spent, empty⟩ := flush_drains valid done
  have moved := points member
  rw [sameLink, sameHost] at moved
  refine ⟨⟨last, member, sameLink, sameHost⟩, ?_⟩
  by_cases failed : call.value = -1
  · have hard := mt spent.iff_used.mpr (by simpa using failed)
    simp only [not_forall] at hard
    obtain ⟨outcome, within, stops⟩ := hard
    exact .inr ⟨failed, ⟨_, moved⟩, outcome, within, stops⟩
  · rw [counts failed] at moved
    have nonneg : 0 ≤ call.value := by
      obtain ⟨sent, _, _, count⟩ := moved
      omega
    exact .inl ⟨nonneg, moved, empty failed⟩

/-- Two bytes to send, and a peer that takes one of them before the connection is reset. -/
def halfSent : Link × Host :=
  ({ holding [] 8 with output := .holding (ascii "ab") 8 },
    { Host.sending [] [] with writes := [.accept 1, .fail .eintr, .fail (.other 104)] })

theorem flush_accounts_halfSent :
    (∀ point ∈ halfSent.1.flushPoints halfSent.2,
      Accounts halfSent.1 halfSent.2 point.value point.link point.host) ∧
      ∀ call, halfSent.1.flush halfSent.2 = .done call →
        (∃ point ∈ halfSent.1.flushPoints halfSent.2, point.link = call.link ∧ point.host = call.host) ∧
          (0 ≤ call.value ∧ Accounts halfSent.1 halfSent.2 call.value call.link call.host ∧
              call.link.output.content = [] ∨
            call.value = -1 ∧ (∃ count, Accounts halfSent.1 halfSent.2 count call.link call.host) ∧
              ∃ outcome ∈ used halfSent.2.writes call.host.writes, ¬ outcome.Passes) :=
  flush_accounts halfSent.2 (Buffer.holding_wellFormed (by decide))

end Dbss.Net.Link
