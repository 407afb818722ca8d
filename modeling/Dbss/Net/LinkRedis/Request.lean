import Dbss.Data.Framing
import Dbss.Net.LinkRedis
import Dbss.Resp.Grammar
import Dbss.Util.Buffer.Content

namespace Dbss.Net.RedisLink

open Dbss.Data Dbss.Util Dbss.Resp

/-! `parse_req` reads what a Redis client writes. -/

/-- The parser stands at offset `ptr` before `bytes`, the rest of the content. -/
structure At (input : Buffer) (ptr size : Int) (bytes : Bytes) : Prop where
  ptrNonneg : 0 ≤ ptr
  size : size = bytes.length
  inside : ptr + bytes.length ≤ input.total
  read : input.buf.slice ptr.toNat bytes.length = bytes

variable {input : Buffer} {ptr size parsed numArgs : Int} {bytes front rest missing line : Bytes}
  {mark : UInt8} {length fuel : Nat} {args got : List Bytes} {errno : Errno} {link : RedisLink}

theorem At.advance (here : At input ptr size (front ++ rest)) :
    At input (ptr + front.length) (size - front.length) rest := by
  have count := here.size
  have inside := here.inside
  have head := here.ptrNonneg
  rw [List.length_append] at count inside
  refine ⟨by omega, by omega, by omega, ?_⟩
  have tail := (Block.slice_of_append here.read).2
  have offset : (ptr + front.length).toNat = ptr.toNat + front.length := by omega
  simpa [offset] using tail

/-! ### Lines -/

def beyond (input : Buffer) (stop : Int) : Bytes :=
  input.buf.slice stop.toNat (input.total - stop).toNat

/-- `strtol` is given the rest of the content behind the mark and of the block behind the content. -/
theorem At.text (here : At input ptr size bytes) (nonempty : bytes ≠ []) :
    input.buf.slice (ptr + 1).toNat (input.total - (ptr + 1)).toNat = bytes.tail ++ beyond input (ptr + size) := by
  obtain ⟨first, tail, rfl⟩ := List.exists_cons_of_ne_nil nonempty
  have next : At input (ptr + 1) (size - 1) tail :=
    (show At input ptr size ([first] ++ tail) from here).advance
  have count := here.size
  have inside := next.inside
  have nonneg := next.ptrNonneg
  rw [List.length_cons] at count
  have split : (input.total - (ptr + 1)).toNat = tail.length + (input.total - (ptr + size)).toNat := by omega
  have offset : (ptr + 1).toNat + tail.length = (ptr + size).toNat := by omega
  rw [split, Block.slice_add, next.read, offset]
  rfl

/-- One round of the loop, at a line that is all there. -/
theorem parseLoop_round (here : At input ptr size (line ++ 10 :: rest)) (clean : 10 ∉ line) :
    parseLoop input (fuel + 1) ptr size parsed numArgs got errno =
      let number := strtol ((line ++ 10 :: rest).tail ++ beyond input (ptr + size)) errno
      let len := wrap32 number.value
      if number.errno = .einval then (.error got, number.errno)
      else if len < 0 then (.error got, number.errno)
      else if numArgs = 0 then
        if len ≤ 0 then (.error got, number.errno)
        else
          parseLoop input fuel (ptr + (line.length + 1)) (size - (line.length + 1)) (parsed + (line.length + 1))
            len got number.errno
      else if rest.length < len.toNat + 2 then (.incomplete, number.errno)
      else if numArgs - 1 = 0 then
        (.complete (got ++ [rest.take len.toNat]) (parsed + (line.length + 1 + len + 2)), number.errno)
      else
        parseLoop input fuel (ptr + (line.length + 1 + len + 2)) (size - (line.length + 1 + len + 2))
          (parsed + (line.length + 1 + len + 2)) (numArgs - 1) (got ++ [rest.take len.toNat]) number.errno := by
  have count := here.size
  have front : At input ptr size ((line ++ [10]) ++ rest) := by
    simpa using here
  have next := front.advance
  have left := next.size
  rw [List.length_append, List.length_singleton] at next left
  rw [List.length_append, List.length_cons] at count
  have newline : input.buf.memchr ptr.toNat 10 size.toNat = some line.length := by
    rw [here.size, Int.toNat_natCast]
    exact Block.memchr_some here.read clean
  have lf : ptr + (line.length : Int) + 1 = ptr + (line.length + 1) := by omega
  have used : ptr + ((line.length : Int) + 1) - ptr = line.length + 1 := by omega
  conv_lhs => unfold parseLoop
  rw [if_pos (by omega), newline, here.text (by simp)]
  simp only [lf, used]
  generalize strtol ((line ++ 10 :: rest).tail ++ beyond input (ptr + size)) errno = number
  by_cases positive : wrap32 number.value < 0
  · simp only [if_pos positive]
  · by_cases first : numArgs = 0
    · simp only [if_pos first]
    · by_cases short : rest.length < (wrap32 number.value).toNat + 2
      · simp only [if_neg first, if_pos short,
          if_pos (show wrap32 number.value > size - (line.length + 1) - 2 by omega)]
      · have body : input.buf.slice (ptr + (line.length + 1)).toNat (wrap32 number.value).toNat =
            rest.take (wrap32 number.value).toNat := by
          rw [← Block.slice_take (show (wrap32 number.value).toNat ≤ rest.length by omega)]
          exact congrArg _ next.read
        have offset : ptr + ((line.length : Int) + 1) + (wrap32 number.value + 2) =
            ptr + (line.length + 1 + wrap32 number.value + 2) := by omega
        have shrunk : size - ((line.length : Int) + 1) - (wrap32 number.value + 2) =
            size - (line.length + 1 + wrap32 number.value + 2) := by omega
        have sum : parsed + ((line.length : Int) + 1) + (wrap32 number.value + 2) =
            parsed + (line.length + 1 + wrap32 number.value + 2) := by omega
        simp only [if_neg first, if_neg short, body, offset, shrunk, sum,
          if_neg (show ¬ wrap32 number.value > size - (line.length + 1) - 2 by omega)]

/-- `strtol` reads the number of a length line up to its carriage return, however far the block goes on. -/
theorem strtol_lengthLine (header : LengthLine mark length line) (bound : length < 2147483648) (after : Bytes) :
    strtol ((line ++ rest).tail ++ after) errno = ⟨length, line.length - 3, errno⟩ := by
  cases header with
  | @line digits nonempty plain value =>
      have split : (mark :: (digits ++ crlf) ++ rest).tail ++ after = digits ++ (crlf ++ (rest ++ after)) := by
        simp
      have width : (mark :: (digits ++ crlf)).length - 3 = digits.length := by
        simp [crlf]
      rw [split, strtol_numeral (.nonnegative nonempty plain) ⟨by omega, by omega⟩ (by simp [crlf, isDigit]),
        value, width]

theorem parseLoop_line (here : At input ptr size (line ++ rest)) (header : LengthLine mark length line)
    (other : mark ≠ 10) (bound : length < 2147483648) (ready : errno ≠ .einval) :
    parseLoop input (fuel + 1) ptr size parsed numArgs got errno =
      if numArgs = 0 then
        if (length : Int) ≤ 0 then (.error got, errno)
        else parseLoop input fuel (ptr + line.length) (size - line.length) (parsed + line.length) length got errno
      else if rest.length < length + 2 then (.incomplete, errno)
      else if numArgs - 1 = 0 then
        (.complete (got ++ [rest.take length]) (parsed + (line.length + length + 2)), errno)
      else
        parseLoop input fuel (ptr + (line.length + length + 2)) (size - (line.length + length + 2))
          (parsed + (line.length + length + 2)) (numArgs - 1) (got ++ [rest.take length]) errno := by
  obtain ⟨front, ended, clean⟩ := header.split other
  have split : line ++ rest = front ++ 10 :: rest := by
    rw [ended, List.append_assoc, List.singleton_append]
  have small : wrap32 (length : Int) = length := wrap32_of_range (by omega) (by omega)
  have width : (line.length : Int) = front.length + 1 := by
    simp [ended]
  rw [parseLoop_round (split ▸ here) clean, ← split]
  simp only [strtol_lengthLine header bound, small, if_neg ready, if_neg (show ¬ (length : Int) < 0 by omega),
    Int.toNat_natCast, width]

/-! ### Arguments -/

theorem parseLoop_arg {arg : Bytes} (here : At input ptr size (line ++ (arg ++ (crlf ++ rest))))
    (header : LengthLine 36 arg.length line) (bound : arg.length < 2147483648) (ready : errno ≠ .einval)
    (some : 0 < numArgs) :
    parseLoop input (fuel + 1) ptr size parsed numArgs got errno =
      if numArgs - 1 = 0 then (.complete (got ++ [arg]) (parsed + (line.length + arg.length + 2)), errno)
      else
        parseLoop input fuel (ptr + (line.length + arg.length + 2)) (size - (line.length + arg.length + 2))
          (parsed + (line.length + arg.length + 2)) (numArgs - 1) (got ++ [arg]) errno := by
  have whole : ¬ (arg ++ (crlf ++ rest)).length < arg.length + 2 := by
    simp only [crlf, List.length_append, List.length_cons]
    omega
  rw [parseLoop_line here header (by decide) bound ready, if_neg (by omega), if_neg whole, List.take_left]

theorem parseLoop_args {text : Bytes} (texts : ArgTexts args text) (nonempty : args ≠ [])
    (here : At input ptr size (text ++ rest)) (bound : ∀ arg ∈ args, arg.length < 2147483648)
    (ready : errno ≠ .einval) (enough : args.length ≤ fuel) :
    parseLoop input fuel ptr size parsed args.length got errno =
      (.complete (got ++ args) (parsed + text.length), errno) := by
  induction texts generalizing fuel ptr size parsed got with
  | nil => exact absurd rfl nonempty
  | @cons line arg others texts header more ih =>
      obtain ⟨fuel, rfl⟩ : ∃ less, fuel = less + 1 :=
        Nat.exists_eq_add_one.mpr (Nat.lt_of_lt_of_le (by simp) enough)
      have spelled : At input ptr size (line ++ (arg ++ (crlf ++ (texts ++ rest)))) := by
        simpa using here
      have front : At input ptr size ((line ++ (arg ++ crlf)) ++ (texts ++ rest)) := by
        simpa using here
      have width : (((line ++ (arg ++ crlf)).length : Nat) : Int) = line.length + arg.length + 2 := by
        simp only [crlf, List.length_append, List.length_cons, List.length_nil]
        omega
      have total : ((line ++ (arg ++ (crlf ++ texts))).length : Int) =
          (line.length + arg.length + 2) + texts.length := by
        simp only [crlf, List.length_append, List.length_cons, List.length_nil]
        omega
      have next := front.advance
      rw [width] at next
      rw [parseLoop_arg spelled header (bound arg (by simp)) ready (by simp), total]
      by_cases last : others = []
      · subst last
        cases more
        simp
      · have some := List.length_pos_iff.mpr last
        have count : (((arg :: others).length : Nat) : Int) - 1 = others.length := by simp
        rw [count, if_neg (by omega), ih last next
          (fun other member => bound other (by simp [member])) (by simpa using enough)]
        rw [List.append_assoc, List.singleton_append, Int.add_assoc]

theorem parseLoop_noLine (here : At input ptr size bytes) (clean : 10 ∉ bytes) :
    parseLoop input fuel ptr size parsed numArgs got errno = (.incomplete, errno) := by
  cases fuel with
  | zero => rfl
  | succ fuel =>
      unfold parseLoop
      rw [here.size, Int.toNat_natCast, Block.memchr_none here.read clean]
      split <;> rfl

theorem parseLoop_beginning (cut : bytes ++ missing = lengthLine mark length) (some : missing ≠ [])
    (other : mark ≠ 10) (here : At input ptr size bytes) :
    parseLoop input fuel ptr size parsed numArgs got errno = (.incomplete, errno) := by
  have line : lengthLine mark length = (mark :: (decimal length ++ [13])) ++ [10] := by
    rw [← lengthLine_append, List.append_nil]
  have within : bytes <+: (mark :: (decimal length ++ [13])) ++ [10] := ⟨missing, by rw [cut, line]⟩
  rcases List.prefix_concat_iff.mp within with whole | within
  · rw [whole, line] at cut
    exact absurd (List.append_right_eq_self.mp cut) some
  · exact parseLoop_noLine here fun found =>
      not_newline_mem (fun _ => isDigit_of_mem_decimal) other (within.subset found)

theorem parseLoop_part (cut : bytes ++ missing = args.flatMap bulkText) (some : missing ≠ [])
    (here : At input ptr size bytes) (bound : ∀ arg ∈ args, arg.length < 2147483648)
    (ready : errno ≠ .einval) (enough : bytes.length < fuel) :
    parseLoop input fuel ptr size parsed args.length got errno = (.incomplete, errno) := by
  induction args generalizing fuel ptr size parsed got bytes with
  | nil => exact absurd (List.append_eq_nil_iff.mp cut).2 some
  | cons arg others ih =>
      obtain ⟨fuel, rfl⟩ := Nat.exists_eq_add_one.mpr (Nat.zero_lt_of_lt enough)
      rw [List.flatMap_cons] at cut
      rcases cut_cases cut with ⟨extra, rfl, after⟩ | ⟨middle, more, inside⟩
      · -- the first argument is all there
        have left : others ≠ [] := by
          intro same
          subst same
          exact some (List.append_eq_nil_iff.mp after).2
        have count : (((arg :: others).length : Nat) : Int) - 1 = others.length := by simp
        have positive := List.length_pos_iff.mpr left
        have width : ((bulkText arg).length : Int) = (lengthLine 36 arg.length).length + arg.length + 2 := by
          rw [bulkText_length]
          omega
        have next := here.advance
        rw [width] at next
        rw [List.length_append, bulkText_length] at enough
        have spelled : At input ptr size (lengthLine 36 arg.length ++ (arg ++ (crlf ++ extra))) := by
          simpa [bulkText] using here
        rw [parseLoop_arg spelled (.canonical 36 arg.length) (bound arg (by simp)) ready (by simp), count,
          if_neg (by omega),
          ih after next (fun other member => bound other (by simp [member])) (by omega)]
      · rcases cut_cases (show bytes ++ middle = lengthLine 36 arg.length ++ (arg ++ crlf) from inside)
          with ⟨body, rfl, tail⟩ | ⟨line, more, start⟩
        · -- the cut is behind the length line
          have short : body.length < arg.length + 2 := by
            have lengths := congrArg List.length tail
            have positive := List.length_pos_iff.mpr more
            simp only [crlf, List.length_append, List.length_cons, List.length_nil] at lengths
            omega
          rw [parseLoop_line here (.canonical 36 arg.length) (by decide) (bound arg (by simp)) ready,
            if_neg (by simp; omega), if_pos short]
        · exact parseLoop_beginning start more (by decide) here

/-! ### Requests -/

theorem At.content (valid : input.WellFormed) : At input input.data input.size input.content := by
  have size := valid.size_eq
  have inside := valid.inside
  refine ⟨valid.dataNonneg, size, by omega, ?_⟩
  rw [Buffer.content_length]
  rfl

theorem first_of_content (valid : input.WellFormed) {byte : UInt8}
    (here : input.content = byte :: rest) : input.buf input.data.toNat = byte :=
  Block.head_of_slice ((At.content valid).read.trans here)

theorem parseReq_complete (link : RedisLink) (valid : input.WellFormed) {text : Bytes} (request : IsRequest args text)
    (here : input.content = text ++ rest) (ready : errno ≠ .einval) :
    link.parseReq input errno = ⟨1, { link with recvBytes := args }, input.decr text.length, errno⟩ := by
  cases request with
  | @request line args texts header nonempty all =>
      have start := At.content valid
      have count := start.size
      have limit := valid.content_length_lt
      obtain ⟨enough, bounds⟩ := all.length_le
      have some := List.length_pos_iff.mpr nonempty
      rw [List.append_assoc] at here
      rw [here] at start
      rw [here, List.length_append, List.length_append] at limit count
      have star : input.buf input.data.toNat = 42 := by
        cases header
        exact first_of_content valid here
      rw [parseReq, if_neg (by simp [star]), parseLoop_line start header (by decide) (by omega) ready, if_pos rfl,
        if_neg (by omega), parseLoop_args all nonempty start.advance
          (fun arg member => (bounds arg member).trans_lt (by omega)) ready (by omega)]
      simp

theorem parseReq_part (link : RedisLink) (valid : input.WellFormed) (some : input.content ≠ []) (more : missing ≠ [])
    (cut : input.content ++ missing = requestText args)
    (bound : (requestText args).length < 2147483648) (ready : errno ≠ .einval) :
    link.parseReq input errno = ⟨0, { link with recvBytes := [] }, input, errno⟩ := by
  have start := At.content valid
  have count := start.size
  obtain ⟨argsBound, bounds⟩ := requestText_bounds bound
  have star : input.buf input.data.toNat = 42 := by
    cases content : input.content with
    | nil => exact absurd content some
    | cons byte others =>
        rw [content] at cut
        rw [first_of_content valid content]
        exact (List.cons.inj cut).1
  have waits : parseLoop input (input.size.toNat + 1) input.data input.size 0 0 [] errno =
      (.incomplete, errno) := by
    rcases cut_cases (show _ = lengthLine 42 args.length ++ args.flatMap bulkText from cut)
      with ⟨extra, content, after⟩ | ⟨line, unfinished, beginning⟩
    · have some : args ≠ [] := by
        intro same
        subst same
        exact more (List.append_eq_nil_iff.mp after).2
      have positive := List.length_pos_iff.mpr some
      rw [content] at start
      rw [content, List.length_append, lengthLine_length] at count
      rw [parseLoop_line start (.canonical 42 args.length) (by decide) argsBound ready, if_pos rfl,
        if_neg (by omega), parseLoop_part after more start.advance bounds ready (by omega)]
    · exact parseLoop_beginning beginning unfinished (by decide) start
  rw [parseReq, if_neg (by simp [star]), waits]

/-! ### Streams of requests -/

/-- The requests whose text is addressed by an `int`. -/
def requests : Framing (List Bytes) UInt8 where
  encode := requestText
  Legal args := args ≠ [] ∧ (requestText args).length < 2147483648
  encode_ne_nil _ := by simp [requestText, lengthLine]

structure Session where
  link : RedisLink
  input : Buffer
  errno : Errno

def Session.parse (session : Session) : Option (List Bytes) × Session :=
  let request := session.link.parseReq session.input session.errno
  (if request.value = 1 then some request.link.recvBytes else none,
    ⟨request.link, request.input, request.errno⟩)

def sessions : Receiver Session (List Bytes) UInt8 where
  held session := session.input.content
  Ready session := session.input.WellFormed ∧ session.errno ≠ .einval
  next := Session.parse

theorem parse_nothing {session : Session} (valid : session.input.WellFormed)
    (empty : session.input.content = []) :
    session.parse.1 = none ∧ session.parse.2.input = session.input ∧
      session.parse.2.errno = session.errno := by
  have start := At.content valid
  rw [empty] at start
  have waits : parseLoop _ (session.input.size.toNat + 1) _ _ 0 0 [] session.errno = _ :=
    parseLoop_noLine start (by simp)
  unfold Session.parse parseReq
  split
  · exact ⟨rfl, rfl, rfl⟩
  · simp [waits]

theorem sessions_decodes : sessions.Decodes requests where
  complete := by
    intro session args rest held legal here
    obtain ⟨valid, ready⟩ := held
    obtain ⟨nonempty, _⟩ := legal
    have taken := parseReq_complete session.link valid (isRequest_requestText nonempty) here ready
    have parsed : sessions.next session = (some args, ⟨{ session.link with recvBytes := args },
        session.input.decr (requestText args).length, session.errno⟩) := by
      simp only [sessions, Session.parse, taken, if_pos]
    rw [parsed]
    exact ⟨rfl, ⟨(valid.decr_spec here).1, ready⟩, (valid.decr_spec here).2⟩
  incomplete := by
    intro session args held legal part
    obtain ⟨valid, ready⟩ := held
    obtain ⟨_, bound⟩ := legal
    obtain ⟨⟨missing, cut⟩, different⟩ := part
    by_cases empty : session.input.content = []
    · obtain ⟨nothing, input, errno⟩ := parse_nothing valid empty
      have same : (sessions.next session).2.input = session.input := input
      refine ⟨nothing, ⟨?_, ?_⟩, ?_⟩
      · rwa [same]
      · exact fun invalid => ready (errno ▸ invalid)
      · exact congrArg Buffer.content same
    · have more : missing ≠ [] := fun none => different (by simpa [none] using cut)
      have waits := parseReq_part session.link valid empty more cut bound ready
      have parsed : sessions.next session =
          (none, ⟨{ session.link with recvBytes := [] }, session.input, session.errno⟩) := by
        simp only [sessions, Session.parse, waits]
        rfl
      rw [parsed]
      exact ⟨rfl, ⟨valid, ready⟩, rfl⟩

/-- What a client writes is parsed back: a request that is all there is taken
off with what follows it left in place, the beginning of one is left alone, and
however a stream of requests is cut, repeated parsing yields these requests. -/
theorem parseReq_roundTrip {stream : List (List Bytes)} (legal : ∀ args ∈ stream, requests.Legal args) :
    (∀ args ∈ stream, ∀ (link : RedisLink) (input : Buffer) (errno : Errno),
      input.WellFormed → errno ≠ .einval →
      (∀ rest, input.content = requestText args ++ rest →
        (link.parseReq input errno).value = 1 ∧
          (link.parseReq input errno).link.recvBytes = args ∧
          (link.parseReq input errno).input.content = rest) ∧
      (∀ missing, missing ≠ [] → input.content ≠ [] → input.content ++ missing = requestText args →
        (link.parseReq input errno).value = 0 ∧
          (link.parseReq input errno).link.recvBytes = [] ∧
          (link.parseReq input errno).input.content = input.content)) ∧
    ∀ (start final : Session) (chunks : List Bytes) (parsed : List (List Bytes)),
      start.input.content = [] → chunks.flatten = stream.flatMap requestText →
      sessions.Feed start chunks parsed final → parsed = stream ∧ final.input.content = [] := by
  constructor
  · intro args member link input errno valid ready
    obtain ⟨nonempty, bound⟩ := legal args member
    constructor
    · intro rest here
      rw [parseReq_complete link valid (isRequest_requestText nonempty) here ready]
      exact ⟨rfl, rfl, (valid.decr_spec here).2⟩
    · intro missing more some cut
      rw [parseReq_part link valid some more cut bound ready]
      exact ⟨rfl, rfl, rfl⟩
  · intro start final chunks parsed empty cut run
    refine Receiver.Feed.delivers sessions_decodes run legal ?_ (by simpa [sessions, empty] using! cut)
    intro args first
    have some := requests.encode_ne_nil (legal args (List.mem_of_mem_head? first))
    exact ⟨by simp [sessions, empty], by simpa [sessions, empty] using Ne.symm some⟩

/-- A request in two pieces, cut inside its first line end. -/
theorem parseReq_roundTrip_cut :
    ∃ final, sessions.Feed ⟨.new, .holding [] 8, .success⟩
      [[42, 49, 13], [10, 36, 49, 13, 10, 97, 13, 10]] [[[97]]] final ∧ final.input.content = [] := by
  have legal : ∀ args ∈ [[[(97 : UInt8)]]], requests.Legal args := by
    intro args member
    cases List.mem_singleton.mp member
    exact ⟨by decide, by decide⟩
  have ready (bytes : Bytes) (short : bytes.length + 8 < 2147483648) :
      sessions.Ready ⟨.new, .holding bytes 8, .success⟩ :=
    ⟨Buffer.holding_wellFormed short, by simp⟩
  have run : sessions.Feed ⟨.new, .holding [] 8, .success⟩
      [[42, 49, 13], [10, 36, 49, 13, 10, 97, 13, 10]] _ _ :=
    .chunk (ready [42, 49, 13] (by decide)) rfl
      (.chunk (ready [42, 49, 13, 10, 36, 49, 13, 10, 97, 13, 10] (by decide)) (by decide) .stop)
  obtain ⟨parsed, content⟩ := (parseReq_roundTrip legal).2 _ _ _ _ rfl (by decide) run
  exact ⟨_, parsed ▸ run, content⟩

end Dbss.Net.RedisLink
