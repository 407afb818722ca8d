import Dbss.Net.LinkRedis
import Dbss.Util.Buffer.Content

namespace Dbss.Net.RedisLink

open Dbss.Data Dbss.Util

/-! What `recv_req` leaves behind for `send_resp`. -/

variable {link : RedisLink} {input : Buffer} {args : List Bytes} {errno : Errno}

/-- The states `recv_req` leaves behind when it returns a complete request. -/
def Reached (link : RedisLink) : Prop :=
  ∃ (before : RedisLink) (input : Buffer) (errno : Errno) (request : List Bytes),
    input.WellFormed ∧ request ≠ [] ∧ (before.recvReq input errno).value = some request ∧
      (before.recvReq input errno).link = link

/-- A request that is stored has as many elements as an `int` can count. -/
def Stored (link : RedisLink) : Prop :=
  ∀ desc, link.reqDesc = some desc → link.recvString ≠ [] ∧ link.recvString.length < 2147483648

/-- What a round of the loop can do: stop, read the count, or take an argument
with its line and its line end. -/
theorem parseLoop_cases (input : Buffer) (fuel : Nat) (ptr size parsed numArgs : Int) (args : List Bytes)
    (errno : Errno) :
    let outcome := parseLoop input (fuel + 1) ptr size parsed numArgs args errno
    outcome.1 = .incomplete ∨ outcome.1 = .error args ∨
      (∃ line count after, 0 < line ∧
        outcome = parseLoop input fuel (ptr + line) (size - line) (parsed + line) count args after) ∨
      ∃ taken arg after, 0 < taken ∧ taken ≤ size ∧
        (outcome = (.complete (args ++ [arg]) (parsed + taken), after) ∨
          outcome = parseLoop input fuel (ptr + taken) (size - taken) (parsed + taken) (numArgs - 1)
            (args ++ [arg]) after) := by
  intro outcome
  generalize same : outcome = result
  unfold outcome parseLoop at same
  split at same
  · split at same
    · exact .inl (same ▸ rfl)
    · next found _ =>
        have width : ptr + (found : Int) + 1 = ptr + (found + 1) := by omega
        have line : ptr + ((found : Int) + 1) - ptr = found + 1 := by omega
        simp only [width, line] at same
        generalize strtol (input.buf.slice (ptr + 1).toNat (input.total - (ptr + 1)).toNat) errno = number at same
        split at same
        · exact .inr (.inl (same ▸ rfl))
        · split at same
          · exact .inr (.inl (same ▸ rfl))
          · split at same
            · split at same
              · exact .inr (.inl (same ▸ rfl))
              · exact .inr (.inr (.inl ⟨found + 1, _, _, by omega, same.symm⟩))
            · split at same
              · exact .inl (same ▸ rfl)
              · have ptr_eq : ptr + ((found : Int) + 1) + (wrap32 number.value + 2) =
                    ptr + (found + 1 + (wrap32 number.value + 2)) := Int.add_assoc ..
                have size_eq : size - ((found : Int) + 1) - (wrap32 number.value + 2) =
                    size - (found + 1 + (wrap32 number.value + 2)) := Int.sub_sub ..
                have parsed_eq : parsed + ((found : Int) + 1) + (wrap32 number.value + 2) =
                    parsed + (found + 1 + (wrap32 number.value + 2)) := Int.add_assoc ..
                rw [ptr_eq, size_eq, parsed_eq] at same
                generalize input.buf.slice (ptr + (found + 1)).toNat (wrap32 number.value).toNat = arg at same
                refine .inr (.inr (.inr ⟨found + 1 + (wrap32 number.value + 2), arg, number.errno, ?_, ?_, ?_⟩))
                · omega
                · omega
                · split at same
                  · exact .inl same.symm
                  · exact .inr same.symm
  · exact .inl (same ▸ rfl)

/-- Each argument takes bytes of the content, and what is taken was there. -/
theorem parseLoop_bounds {fuel : Nat} {ptr size parsed numArgs used : Int}
    {got : List Bytes} {after : Errno}
    (done : parseLoop input fuel ptr size parsed numArgs got errno = (.complete args used, after)) :
    args ≠ [] ∧ args.length ≤ got.length + size.toNat ∧ parsed ≤ used ∧ used ≤ parsed + size := by
  induction fuel generalizing ptr size parsed numArgs got errno with
  | zero => cases done
  | succ fuel ih =>
      rcases parseLoop_cases input fuel ptr size parsed numArgs got errno with
        waits | failed | ⟨line, count, later, positive, counted⟩ | ⟨taken, arg, later, positive, within, last | more⟩
      · rw [done] at waits
        cases waits
      · rw [done] at failed
        cases failed
      · obtain ⟨some, fewer, lower, upper⟩ := ih (counted.symm.trans done)
        exact ⟨some, by omega, by omega, by omega⟩
      · cases done.symm.trans last
        rw [List.length_append, List.length_singleton]
        exact ⟨List.concat_ne_nil _ _, by omega, by omega, by omega⟩
      · obtain ⟨some, fewer, lower, upper⟩ := ih (more.symm.trans done)
        rw [List.length_append, List.length_singleton] at fewer
        exact ⟨some, by omega, by omega, by omega⟩

theorem zaddPairs_length (args : List Bytes) : (zaddPairs args).length ≤ args.length := by
  fun_induction zaddPairs args with
  | case1 score member rest ih => simp only [List.length_cons]; omega
  | case2 => simp

theorem convertZrange_length : (convertZrange args errno).1.length ≤ 7 := by
  have range_length (condition : Prop) [Decidable condition] (first second third : Bytes) :
      (if condition then [first, second, third] else []).length ≤ 3 := by
    split <;> simp
  have withscores_length : (if args.length > 4 then [strToLower (arg args 4)] else []).length ≤ 1 := by
    split <;> simp
  unfold convertZrange
  simp only
  split
  · rw [List.length_append]
    exact (Nat.add_le_add (range_length _ _ _ _) withscores_length).trans (by decide)
  · exact withscores_length.trans (by decide)

theorem convertZrangebyscore_length (strategy : Strategy) :
    (convertZrangebyscore strategy args errno).1.length ≤ 7 := by
  unfold convertZrangebyscore
  simp only
  split
  · split <;> simp
  · simp

theorem convertArgs_length (strategy : Strategy) (args : List Bytes) (errno : Errno) :
    (convertArgs strategy args errno).1.length ≤ max 7 (args.length - 1) := by
  have zadd := zaddPairs_length (args.drop 2)
  rw [List.length_drop] at zadd
  cases strategy with
  | hkeys | hvals => simp only [convertArgs, convertHkeys]; split <;> simp
  | setex | zincrby => simp only [convertArgs, convertSwapped]; split <;> simp
  | remrangebyrank | remrangebyscore => simp only [convertArgs, convertRemrange]; split <;> simp
  | zadd =>
      simp only [convertArgs, convertZadd]
      split
      · rw [List.length_cons]
        omega
      · simp
  | zrange | zrevrange => exact convertZrange_length.trans (le_max_left _ _)
  | zrangebyscore | zrevrangebyscore => exact (convertZrangebyscore_length _).trans (le_max_left _ _)
  | auto | ping | mget | hmget | hgetall => simp [convertArgs]

theorem convertReq_recvString (link : RedisLink) (errno : Errno) :
    (convertReq link errno).1.recvString ≠ [] ∧
      (convertReq link errno).1.recvString.length ≤ max 8 link.recvBytes.length := by
  unfold convertReq
  split
  · refine ⟨by simp, ?_⟩
    simp only [List.length_cons, List.length_tail]
    omega
  · next desc _ =>
      have converted := convertArgs_length desc.strategy link.recvBytes errno
      refine ⟨by simp, ?_⟩
      simp only [List.length_cons]
      omega

theorem parseReq_bounds (link : RedisLink) (valid : input.WellFormed) (errno : Errno) :
    (link.parseReq input errno).input.WellFormed ∧
      ((link.parseReq input errno).link.recvBytes = [] → (link.parseReq input errno).input = input) ∧
      ((link.parseReq input errno).value ≠ -1 →
        (link.parseReq input errno).link.recvBytes.length < 2147483648) ∧
      (link.parseReq input errno).link.reqDesc = link.reqDesc ∧
      (link.parseReq input errno).link.recvString = link.recvString := by
  have size := valid.size_eq
  have bound := valid.content_length_lt
  unfold parseReq
  split
  · exact ⟨valid, fun _ => rfl, by simp, rfl, rfl⟩
  · generalize parsed : parseLoop input (input.size.toNat + 1) input.data input.size 0 0 [] errno = outcome
    obtain ⟨result, after⟩ := outcome
    cases result with
    | error => exact ⟨valid, fun _ => rfl, by simp, rfl, rfl⟩
    | incomplete => exact ⟨valid, fun _ => rfl, by simp, rfl, rfl⟩
    | complete args used =>
        obtain ⟨some, count, nonneg, within⟩ := parseLoop_bounds parsed
        refine ⟨valid.decr nonneg (by omega), fun none => absurd none some, fun _ => ?_, rfl, rfl⟩
        simp only [List.length_nil] at count ⊢
        omega

/-- What `recv_req` does to the stored request: nothing, or it stores a new one. -/
theorem recvReq_cases (link : RedisLink) (valid : input.WellFormed) (errno : Errno) :
    (link.recvReq input errno).input.WellFormed ∧
      ((link.recvReq input errno).link.reqDesc = link.reqDesc ∧
          (link.recvReq input errno).link.recvString = link.recvString ∧
          ((link.recvReq input errno).value = none ∨ (link.recvReq input errno).value = some []) ∨
        (link.recvReq input errno).link.recvString ≠ [] ∧
          (link.recvReq input errno).link.recvString.length < 2147483648) := by
  obtain ⟨still, _, bound, desc, request⟩ := link.parseReq_bounds valid errno
  have room := still.makeRoom_spec.1
  unfold recvReq
  generalize link.parseReq input errno = outcome at *
  simp only
  split
  · exact ⟨still, .inl ⟨desc, request, .inl rfl⟩⟩
  · next good =>
      have bound := bound good
      split
      · split
        · exact ⟨room, .inl ⟨desc, request, .inr rfl⟩⟩
        · exact ⟨room, .inl ⟨desc, request, .inl rfl⟩⟩
      · next first others recvBytes =>
          have converted := convertReq_recvString { outcome.link with cmd := strToLower first } outcome.errno
          simp only [recvBytes] at converted bound ⊢
          exact ⟨still, .inr ⟨converted.1, by omega⟩⟩

theorem Reached.stored (reached : Reached link) : Stored link := by
  obtain ⟨before, input, errno, request, valid, nonempty, value, rfl⟩ := reached
  rcases (before.recvReq_cases valid errno).2 with ⟨_, _, none | empty⟩ | bounds
  · simp [none] at value
  · rw [empty] at value
    exact absurd (Option.some.inj value).symm nonempty
  · exact fun _ _ => bounds

theorem Stored.recvReq (stored : Stored link) (valid : input.WellFormed) (errno : Errno) :
    Stored (link.recvReq input errno).link := by
  rcases (link.recvReq_cases valid errno).2 with ⟨desc, request, _⟩ | bounds
  · rw [Stored, desc, request]
    exact stored
  · exact fun _ _ => bounds

/-! ### The stored request depends on the arguments alone -/

theorem scoreBound_errno (bound : Bytes) (shift : Int) (errno : Errno) :
    (scoreBound bound shift errno).1 = (scoreBound bound shift .success).1 := by
  unfold scoreBound
  split
  · rfl
  · split
    · simp only [strToInt, strtol_value _ errno]
    · rfl

theorem convertArgs_errno (strategy : Strategy) (args : List Bytes) (errno : Errno) :
    (convertArgs strategy args errno).1 = (convertArgs strategy args .success).1 := by
  have zrange : (convertZrange args errno).1 = (convertZrange args .success).1 := by
    unfold convertZrange
    simp only [strToInt64]
    split
    · simp only [strtol_value _ errno, strtol_value _ (wholeStringErrno _ _)]
    · rfl
  have byScore : (convertZrangebyscore strategy args errno).1 =
      (convertZrangebyscore strategy args .success).1 := by
    simp only [convertZrangebyscore, apply_ite Prod.fst, scoreBound_errno _ _ errno,
      scoreBound_errno _ _ (scoreBound _ _ _).2]
  cases strategy with
  | zrange | zrevrange => exact zrange
  | zrangebyscore | zrevrangebyscore => exact byScore
  | _ => rfl

/-- A Redis link that has received the request `args` and no other. -/
def serving (args : List Bytes) : RedisLink :=
  (convertReq { RedisLink.new with cmd := strToLower (args.headD []), recvBytes := args } .success).1

theorem convertReq_serving (link : RedisLink) (errno : Errno)
    (cmd : link.cmd = strToLower (link.recvBytes.headD [])) :
    (convertReq link errno).1.reqDesc = (serving link.recvBytes).reqDesc ∧
      (convertReq link errno).1.recvString = (serving link.recvBytes).recvString := by
  unfold serving convertReq
  rw [cmd]
  simp only
  cases cmdTable (strToLower (link.recvBytes.headD [])) with
  | none => exact ⟨rfl, rfl⟩
  | some desc => exact ⟨rfl, by simp only [convertArgs_errno _ _ errno]⟩

theorem recvReq_serving (link : RedisLink) (input : Buffer) (errno : Errno) {request : List Bytes}
    (nonempty : request ≠ []) (value : (link.recvReq input errno).value = some request) :
    (link.recvReq input errno).link.reqDesc = (serving (link.parseReq input errno).link.recvBytes).reqDesc ∧
      (link.recvReq input errno).link.recvString =
        (serving (link.parseReq input errno).link.recvBytes).recvString := by
  unfold recvReq at value ⊢
  generalize link.parseReq input errno = outcome at *
  simp only at value ⊢
  split at value
  · simp at value
  · next good =>
      rw [if_neg good]
      split at value
      · split at value
        · exact absurd (Option.some.inj value).symm nonempty
        · simp at value
      · next first others recvBytes =>
          have stored := convertReq_serving { outcome.link with cmd := strToLower first } outcome.errno
            (by simp [recvBytes])
          simp only [recvBytes] at stored ⊢
          exact stored

theorem respPieces_congr {other : RedisLink} (desc : link.reqDesc = other.reqDesc)
    (request : link.recvString = other.recvString) (resp : List Bytes) :
    link.respPieces resp = other.respPieces resp := by
  unfold respPieces
  rw [desc, request]

theorem recvReq_waits (link : RedisLink) (valid : input.WellFormed)
    (value : (link.recvReq input errno).value = some []) :
    (link.recvReq input errno).input.content = input.content := by
  obtain ⟨still, kept, _⟩ := link.parseReq_bounds valid errno
  have room := still.makeRoom_spec.2.1
  unfold recvReq at value ⊢
  generalize link.parseReq input errno = outcome at *
  simp only at value ⊢
  split at value
  · simp at value
  · next good =>
      rw [if_neg good]
      split at value
      · next empty =>
          rw [kept empty] at room
          simp only [kept empty]
          split <;> exact room
      · next first others recvBytes =>
          exact absurd (Option.some.inj value) (convertReq_recvString _ _).1

end Dbss.Net.RedisLink
