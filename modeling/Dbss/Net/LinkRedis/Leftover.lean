import Dbss.Net.LinkRedis.Request
import Dbss.Net.LinkRedis.State

namespace Dbss.Net.RedisLink

open Dbss.Data Dbss.Util Dbss.Resp

/-! Besides the bytes received, `parse_req` depends on the `errno` that other
calls have left behind and on what the block holds behind the content. -/

/-- Any two calls with this content give the same code and arguments, and take
the same bytes. -/
def SameReading (content : Bytes) : Prop :=
  ∀ (link link' : RedisLink) (input input' : Buffer) (errno errno' : Errno),
    input.WellFormed → input'.WellFormed → input.content = content → input'.content = content →
    (link.parseReq input errno).value = (link'.parseReq input' errno').value ∧
      (link.parseReq input errno).link.recvBytes = (link'.parseReq input' errno').link.recvBytes ∧
      (link.parseReq input errno).input.content = (link'.parseReq input' errno').input.content

/-- What follows the first line. -/
def behindLine (content : Bytes) : Bytes :=
  (content.dropWhile (· ≠ 10)).tail

/-- The number in the line at the front of the content, where the block goes on with `beyond`. -/
def lineNumber (content beyond : Bytes) : Int :=
  wrap32 (strtol (content.tail ++ beyond) .success).value

/-- The count is not positive, or the line behind it is complete and its number negative. -/
def RefusedAtOnce (content beyond : Bytes) : Prop :=
  lineNumber content beyond ≤ 0 ∨ 10 ∈ behindLine content ∧ lineNumber (behindLine content) beyond < 0

variable {input : Buffer} {ptr size parsed numArgs : Int} {content line rest : Bytes} {fuel : Nat}
  {args got : List Bytes} {errno : Errno}

theorem strtol_ready (text : Bytes) {errno : Errno} (ready : errno ≠ .einval) :
    (strtol text errno).errno ≠ .einval := by
  rcases strtol_errno text errno with same | ⟨range, _⟩
  · rwa [same]
  · rw [range]
    decide

theorem behindLine_append (clean : 10 ∉ line) : behindLine (line ++ 10 :: rest) = rest := by
  have front : ∀ byte ∈ line, decide (byte ≠ 10) = true := fun byte member =>
    decide_eq_true (ne_of_mem_of_not_mem member clean)
  rw [behindLine, List.dropWhile_append_of_pos front, List.dropWhile_cons_of_neg (by simp), List.tail_cons]

theorem parseLoop_error (some : got ≠ [])
    (failed : (parseLoop input fuel ptr size parsed numArgs got errno).1 = .error args) : args ≠ [] := by
  induction fuel generalizing ptr size parsed numArgs got errno with
  | zero => cases failed
  | succ fuel ih =>
      rcases parseLoop_cases input fuel ptr size parsed numArgs got errno with
        waits | stopped | ⟨line, count, later, _, counted⟩ | ⟨taken, arg, later, _, _, last | more⟩
      · cases failed.symm.trans waits
      · cases failed.symm.trans stopped
        exact some
      · exact ih some ((congrArg Prod.fst counted).symm.trans failed)
      · cases failed.symm.trans (congrArg Prod.fst last)
      · exact ih (List.concat_ne_nil _ _) ((congrArg Prod.fst more).symm.trans failed)

/-! ### The first two lines -/

theorem first_of_star (star : input.content.head? = some 42) : input.buf input.data.toNat = 42 := by
  cases content : input.content with
  | nil => simp [content] at star
  | cons byte others =>
      rw [content] at star
      exact (Block.head_of_slice content).trans (Option.some.inj star)

theorem parseReq_refused_iff (link : RedisLink) (star : input.content.head? = some 42) (errno : Errno)
    (args : List Bytes) :
    ((link.parseReq input errno).value = -1 ∧ (link.parseReq input errno).link.recvBytes = args) ↔
      (parseLoop input (input.size.toNat + 1) input.data input.size 0 0 [] errno).1 = .error args := by
  rw [parseReq, if_neg (by simp [first_of_star star])]
  generalize parseLoop input (input.size.toNat + 1) input.data input.size 0 0 [] errno = outcome
  obtain ⟨parsed, after⟩ := outcome
  cases parsed <;> simp

theorem parseReq_refused_input (link : RedisLink) (refused : (link.parseReq input errno).value = -1) :
    (link.parseReq input errno).input = input := by
  unfold parseReq at refused ⊢
  split
  · rfl
  · next star =>
      rw [if_neg star] at refused
      split
      · rfl
      · rfl
      · next done => simp [done] at refused

def stale (input : Buffer) : Bytes :=
  beyond input (input.data + input.size)

theorem wrap32_strtol (content beyond : Bytes) (errno : Errno) :
    wrap32 (strtol (content.tail ++ beyond) errno).value = lineNumber content beyond := by
  rw [lineNumber, strtol_value]

/-- At the line behind the count, an error leaves no argument behind exactly if
the number in that line is negative. -/
theorem parseLoop_second (here : At input ptr size rest) (ready : errno ≠ .einval) (counted : 0 < numArgs)
    (enough : rest.length < fuel) :
    (parseLoop input fuel ptr size parsed numArgs [] errno).1 = .error [] ↔
      10 ∈ rest ∧ lineNumber rest (beyond input (ptr + size)) < 0 := by
  by_cases whole : 10 ∈ rest
  · obtain ⟨line, others, rfl, clean⟩ := List.eq_append_cons_of_mem whole
    obtain ⟨fuel, rfl⟩ := Nat.exists_eq_add_one.mpr (Nat.zero_lt_of_lt enough)
    have still := strtol_ready ((line ++ 10 :: others).tail ++ beyond input (ptr + size)) ready
    rw [parseLoop_round here clean]
    simp only [wrap32_strtol, if_neg still, if_neg (show ¬ numArgs = 0 by omega)]
    by_cases negative : lineNumber (line ++ 10 :: others) (beyond input (ptr + size)) < 0
    · simp [negative]
    · rw [if_neg negative]
      refine iff_of_false ?_ (by simp [negative])
      intro failed
      split at failed
      · cases failed
      · split at failed
        · cases failed
        · exact parseLoop_error (List.concat_ne_nil _ _) failed rfl
  · rw [parseLoop_noLine here whole]
    exact iff_of_false (by simp) (by simp [whole])

/-- A call refuses the content before its first argument if `errno` was EINVAL
and is left alone, or if the numbers are refused. -/
theorem parseLoop_refused_iff (valid : input.WellFormed) (whole : 10 ∈ input.content) (errno : Errno) :
    (parseLoop input (input.size.toNat + 1) input.data input.size 0 0 [] errno).1 = .error [] ↔
      (strtol (input.content.tail ++ stale input) errno).errno = .einval ∨
        RefusedAtOnce input.content (stale input) := by
  have here := At.content valid
  have size := valid.size_eq
  obtain ⟨line, rest, content, clean⟩ := List.eq_append_cons_of_mem whole
  rw [content] at here size ⊢
  have front : At input input.data input.size ((line ++ [10]) ++ rest) := by
    simpa using here
  have next := front.advance
  rw [List.length_append, List.length_singleton, Nat.cast_add, Nat.cast_one] at next
  have stop : input.data + (line.length + 1) + (input.size - (line.length + 1)) = input.data + input.size := by omega
  rw [stale, RefusedAtOnce, behindLine_append clean, parseLoop_round here clean]
  simp only [wrap32_strtol, if_true]
  by_cases broken :
      (strtol ((line ++ 10 :: rest).tail ++ beyond input (input.data + input.size)) errno).errno = .einval
  · rw [if_pos broken]
    exact iff_of_true rfl (.inl broken)
  · rw [if_neg broken]
    by_cases refused : lineNumber (line ++ 10 :: rest) (beyond input (input.data + input.size)) ≤ 0
    · simp only [if_pos refused, ite_self]
      exact iff_of_true trivial (.inr (.inl refused))
    · simp only [List.length_append, List.length_cons] at size
      rw [if_neg (by omega), if_neg refused, parseLoop_second next broken (by omega) (by omega), stop]
      simp only [broken, refused, false_or]

/-- After EINVAL everything that starts with a count is refused. -/
theorem parseReq_einval (link : RedisLink) (valid : input.WellFormed) {length : Nat}
    (header : LengthLine 42 length line)
    (bound : length < 2147483648) (here : input.content = line ++ rest) :
    (link.parseReq input .einval).value = -1 ∧ (link.parseReq input .einval).link.recvBytes = [] ∧
      (link.parseReq input .einval).input = input := by
  have star : input.content.head? = some 42 := by
    rw [here]
    cases header
    rfl
  have whole : 10 ∈ input.content := by
    obtain ⟨front, ended, _⟩ := header.split (by decide)
    simp [here, ended]
  have refused := (parseReq_refused_iff link star .einval []).mpr ((parseLoop_refused_iff valid whole .einval).mpr
    (.inl (by rw [here, strtol_lengthLine header bound])))
  exact ⟨refused.1, refused.2, parseReq_refused_input link refused.1⟩

/-! ### Pairs of calls -/

/-- A buffer that holds `content`, with `after` behind it in the block. -/
def followed (content after : Bytes) : Buffer :=
  { Buffer.holding (content ++ after) 0 with size := content.length }

theorem followed_spec {after : Bytes} (bound : content.length + after.length < 2147483648) :
    (followed content after).WellFormed ∧ (followed content after).content = content ∧
      stale (followed content after) = after := by
  have read : (Block.store (fun _ => 0) 0 (content ++ after)).slice 0 (content ++ after).length = content ++ after :=
    Block.slice_store_same
  obtain ⟨front, back⟩ := Block.slice_of_append read
  refine ⟨?_, ?_, ?_⟩
  · constructor <;> simp only [followed, Buffer.holding, List.length_append] <;> omega
  · simpa [Buffer.content, followed, Buffer.holding] using front
  · have width : (content ++ after).length - content.length = after.length := by simp
    rw [width] at back
    simpa [stale, beyond, followed, Buffer.holding] using back

theorem parseReq_refused (link : RedisLink) (valid : input.WellFormed) (star : input.content.head? = some 42)
    (whole : 10 ∈ input.content) (refused : RefusedAtOnce input.content (stale input)) (errno : Errno) :
    (link.parseReq input errno).value = -1 ∧ (link.parseReq input errno).link.recvBytes = [] ∧
      (link.parseReq input errno).input = input := by
  obtain ⟨value, args⟩ := (parseReq_refused_iff link star errno []).mpr
    ((parseLoop_refused_iff valid whole errno).mpr (.inr refused))
  exact ⟨value, args, parseReq_refused_input link value⟩

theorem parseReq_noLine (link : RedisLink) (valid : input.WellFormed) (star : input.content.head? = some 42)
    (none : 10 ∉ input.content) (errno : Errno) :
    link.parseReq input errno = ⟨0, { link with recvBytes := [] }, input, errno⟩ := by
  have waits : parseLoop input (input.size.toNat + 1) input.data input.size 0 0 [] errno = (.incomplete, errno) :=
    parseLoop_noLine (At.content valid) none
  rw [parseReq, if_neg (by simp [first_of_star star]), waits]

/-- Two calls on one content agree, whatever `errno` is and whatever follows the
content, exactly if it has no complete line, or its count or first length is
refused whatever follows. -/
theorem sameReading_iff (star : content.head? = some 42) :
    SameReading content ↔ 10 ∉ content ∨
      ∀ beyond, content.length + beyond.length < 2147483648 → RefusedAtOnce content beyond := by
  constructor
  · intro same
    by_contra! differs
    obtain ⟨whole, beyond, bound, accepted⟩ := differs
    obtain ⟨valid, held, behind⟩ := followed_spec bound
    obtain ⟨value, args, _⟩ := same .new .new _ _ .einval .success valid valid held held
    have starts : (followed content beyond).content.head? = some 42 := held.symm ▸ star
    have lines : 10 ∈ (followed content beyond).content := held.symm ▸ whole
    have kept : (strtol ((followed content beyond).content.tail ++ stale (followed content beyond)) .einval).errno =
        .einval := by
      rcases strtol_errno ((followed content beyond).content.tail ++ stale (followed content beyond)) .einval with
        same | ⟨_, low⟩
      · exact same
      · rw [wrap32_strtol, held, behind] at low
        exact absurd (.inl low) accepted
    have refused := (parseReq_refused_iff .new starts .einval []).mpr
      ((parseLoop_refused_iff valid lines .einval).mpr (.inl kept))
    rw [value, args, parseReq_refused_iff .new starts, parseLoop_refused_iff valid lines, held, behind] at refused
    rcases refused with invalid | refused
    · exact strtol_ready _ (by decide) invalid
    · exact accepted refused
  · rintro either link link' input input' errno errno' valid valid' rfl same
    by_cases whole : 10 ∈ input.content
    · have refused := either.resolve_left (not_not.mpr whole)
      have bounded (other : Buffer) (valid : other.WellFormed) :
          other.content.length + (stale other).length < 2147483648 := by
        have start := valid.dataNonneg
        have size := valid.size_eq
        have inside := valid.inside
        have bound := valid.totalBound
        rw [stale, beyond, Block.slice_length]
        omega
      obtain ⟨value, args, left⟩ := parseReq_refused link valid star whole (refused _ (bounded input valid)) errno
      obtain ⟨value', args', left'⟩ := parseReq_refused link' valid' (same ▸ star) (same ▸ whole)
        (same ▸ refused _ (same ▸ bounded input' valid')) errno'
      rw [value, args, left, value', args', left']
      exact ⟨rfl, rfl, same.symm⟩
    · rw [parseReq_noLine link valid star whole, parseReq_noLine link' valid' (same ▸ star) (same ▸ whole)]
      exact ⟨rfl, rfl, same.symm⟩

/-- A count of zero is refused by every call. -/
theorem sameReading_iff_zero : SameReading [42, 48, 13, 10] := by
  refine (sameReading_iff rfl).mpr (.inr fun beyond _ => .inl ?_)
  have zero : strtol (decimal 0 ++ (crlf ++ beyond)) .success = ⟨0, 1, .success⟩ :=
    strtol_decimal (by decide) (by simp [crlf, isDigit])
  change wrap32 (strtol (decimal 0 ++ (crlf ++ beyond)) .success).value ≤ 0
  rw [zero]
  decide

/-- A request for `a`, after a score that was no number. -/
theorem parseReq_afterError :
    (RedisLink.new.parseReq (.holding [42, 49, 13, 10, 36, 49, 13, 10, 97, 13, 10] 8) .success).value = 1 ∧
      (RedisLink.new.parseReq (.holding [42, 49, 13, 10, 36, 49, 13, 10, 97, 13, 10] 8)
        (strToInt64 [120] .success).2).value = -1 ∧
      ¬ SameReading [42, 49, 13, 10, 36, 49, 13, 10, 97, 13, 10] := by
  have parsed : (RedisLink.new.parseReq (.holding [42, 49, 13, 10, 36, 49, 13, 10, 97, 13, 10] 8)
      .success).value = 1 := by
    decide
  have refused : (RedisLink.new.parseReq (.holding [42, 49, 13, 10, 36, 49, 13, 10, 97, 13, 10] 8)
      (strToInt64 [120] .success).2).value = -1 := by
    decide
  refine ⟨parsed, refused, fun same => ?_⟩
  have valid : (Buffer.holding [42, 49, 13, 10, 36, 49, 13, 10, 97, 13, 10] 8).WellFormed :=
    Buffer.holding_wellFormed (by decide)
  have codes := (same .new .new _ _ .success (strToInt64 [120] .success).2 valid valid Buffer.holding_content
    Buffer.holding_content).1
  rw [parsed, refused] at codes
  exact absurd codes (by decide)

end Dbss.Net.RedisLink
