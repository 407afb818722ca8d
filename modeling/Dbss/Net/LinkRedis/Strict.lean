import Dbss.Net.LinkRedis.Request

namespace Dbss.Net.RedisLink

open Dbss.Data Dbss.Util Dbss.Resp

/-! What `parse_req` accepts besides requests: it looks at the numbers of the
length lines and at nothing else in them, and skips the two bytes behind an
argument. -/

variable {input : Buffer} {errno : Errno} {content rest : Bytes}

theorem spelled_of_isRequest {args : List Bytes} {text : Bytes} (request : IsRequest args text)
    (small : text.length < 2147483648) (rest : Bytes) : requestSpelled (text ++ rest) = true := by
  cases request with
  | @request line args texts header _ all =>
      obtain ⟨count, each⟩ := all.length_le
      rw [List.length_append] at small
      exact requestSpelled_iff.mpr ⟨line, args, texts, rest, header, all, by omega,
        fun arg member => (each arg member).trans_lt (by omega), List.append_assoc ..⟩

/-- A length line for no arguments at all is refused. -/
theorem parseReq_noArgs (link : RedisLink) (valid : input.WellFormed) {line : Bytes}
    (header : LengthLine 42 0 line) (here : input.content = line ++ rest) (ready : errno ≠ .einval) :
    (link.parseReq input errno).value = -1 := by
  have start := At.content valid
  have star : input.buf input.data.toNat = 42 := by
    cases header
    exact first_of_content valid here
  rw [here] at start
  rw [parseReq, if_neg (by simp [star]), parseLoop_line start header (by decide) (by decide) ready, if_pos rfl,
    if_pos (by decide)]

/-- What `parse_req` accepts is a request exactly if everything that it does not
look at is in place: the marks, the bytes around the numbers, and the line ends
behind the arguments. -/
theorem acceptsRequest_iff (link : RedisLink) (valid : input.WellFormed) (ready : errno ≠ .einval)
    (accepted : (link.parseReq input errno).value = 1) :
    (∃ text, IsRequest (link.parseReq input errno).link.recvBytes text ∧
        input.content = text ++ (link.parseReq input errno).input.content) ↔
      requestSpelled input.content = true := by
  constructor
  · rintro ⟨text, request, split⟩
    have limit := valid.content_length_lt
    rw [split, List.length_append] at limit
    rw [split]
    exact spelled_of_isRequest request (by omega) _
  · intro spelled
    obtain ⟨line, args, texts, rest, header, all, _, _, here⟩ := requestSpelled_iff.mp spelled
    cases args with
    | nil =>
        rw [parseReq_noArgs link valid header here ready] at accepted
        cases accepted
    | cons arg others =>
        have request : IsRequest (arg :: others) (line ++ texts) := .request header (by simp) all
        rw [← List.append_assoc] at here
        rw [parseReq_complete link valid request here ready]
        exact ⟨line ++ texts, request, by rw [(valid.decr_spec here).2, here]⟩

/-- A request for `a` with a leading zero in its length. -/
def padded : Bytes := [42, 49, 13, 10, 36, 48, 49, 13, 10, 97, 13, 10]

theorem acceptsRequest_iff_padded :
    ∃ text, IsRequest (RedisLink.new.parseReq (.holding padded 8) .success).link.recvBytes text ∧
      (Buffer.holding padded 8).content =
        text ++ (RedisLink.new.parseReq (.holding padded 8) .success).input.content :=
  (acceptsRequest_iff .new (Buffer.holding_wellFormed (by decide)) (by decide) (by decide)).mpr (by decide)

/-- A client that sends `abc` as an argument of one byte: its `bc` is taken for the line end. -/
theorem parseReq_outOfStep :
    (RedisLink.new.parseReq (.holding [42, 49, 13, 10, 36, 49, 13, 10, 97, 98, 99, 13, 10] 8) .success).value = 1 ∧
      ¬ ∃ args text rest, IsRequest args text ∧
        [42, 49, 13, 10, 36, 49, 13, 10, 97, 98, 99, 13, 10] = text ++ rest := by
  refine ⟨by decide, ?_⟩
  rintro ⟨args, text, rest, request, split⟩
  have lengths := congrArg List.length split
  rw [List.length_append] at lengths
  have short : text.length ≤ 13 := le_of_le_of_eq (Nat.le_add_right _ rest.length) lengths.symm
  have spelled := spelled_of_isRequest request (by omega) rest
  rw [← split] at spelled
  exact absurd spelled (by decide)

end Dbss.Net.RedisLink
