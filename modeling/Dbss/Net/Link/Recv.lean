import Dbss.Net.Link
import Dbss.Ssdb.Format
import Dbss.Util.Buffer.Content

namespace Dbss.Net.Link

open Dbss.Data Dbss.Util Dbss.Ssdb

/-! `Link::recv` reads the SSDB format: its pointer arithmetic follows the
relation `Scans` on the buffered bytes. -/

variable {block : Block} {cursor : Cursor} {bytes : Bytes} {parsed : Nat}

/-- The cursor stands before `bytes`, the rest of the content, after `parsed`
bytes of it; content lengths are `int`s. -/
structure Cursor.At (block : Block) (cursor : Cursor) (bytes : Bytes) (parsed : Nat) : Prop where
  headNonneg : 0 ≤ cursor.head
  size : cursor.size = bytes.length
  parsedEq : cursor.parsed = parsed
  bound : parsed + bytes.length < 2147483648
  read : block.slice cursor.head.toNat bytes.length = bytes

theorem Cursor.At.advance (front : Bytes) {rest : Bytes} (here : cursor.At block (front ++ rest) parsed) :
    (cursor.advance front.length).At block rest (parsed + front.length) := by
  have size := here.size
  have bound := here.bound
  have head := here.headNonneg
  rw [List.length_append] at size bound
  refine ⟨?_, ?_, ?_, by omega, ?_⟩
  · simp only [Cursor.advance]
    omega
  · simp only [Cursor.advance]
    omega
  · simp only [Cursor.advance, here.parsedEq]
    omega
  · have tail := (Block.slice_of_append here.read).2
    have offset : (cursor.head + front.length).toNat = cursor.head.toNat + front.length := by omega
    simpa [Cursor.advance, offset] using tail

theorem Cursor.At.first {byte : UInt8} {rest : Bytes} (here : cursor.At block (byte :: rest) parsed) :
    block cursor.head.toNat = byte :=
  Block.head_of_slice here.read

/-! ### Leading empty lines -/

theorem skipBlank_spec {fuel : Nat} (here : cursor.At block bytes parsed)
    (enough : bytes.length ≤ fuel) :
    (skipBlank block fuel cursor).At block (bytes.dropWhile isBlank)
      (parsed + (bytes.takeWhile isBlank).length) := by
  induction fuel generalizing cursor bytes parsed with
  | zero =>
      have empty : bytes = [] := List.eq_nil_of_length_eq_zero (by omega)
      subst empty
      exact here
  | succ fuel ih =>
      unfold skipBlank
      cases bytes with
      | nil =>
          have size := here.size
          rw [if_neg (by simp [size])]
          exact here
      | cons byte rest =>
          have size := here.size
          have first := here.first
          rw [List.length_cons] at size
          by_cases blank : isBlank byte
          · rw [if_pos ⟨by omega, by simpa [first, isBlank] using blank⟩]
            have next := ih (Cursor.At.advance [byte] here)
              (by simp only [List.length_cons] at enough; omega)
            simpa [blank, Nat.add_comm, Nat.add_left_comm] using next
          · rw [if_neg (by simpa [first, isBlank] using fun _ => blank)]
            simpa [blank] using here

/-! ### One round of the record loop -/

variable {fuel : Nat} {data : List Bytes} {line rest : Bytes}

theorem memchr_none (here : cursor.At block bytes parsed) (clean : 10 ∉ bytes) :
    block.memchr cursor.head.toNat 10 cursor.size.toNat = none := by
  rw [here.size, Int.toNat_natCast]
  exact Block.memchr_none here.read clean

theorem memchr_line (here : cursor.At block (line ++ 10 :: rest) parsed) (clean : 10 ∉ line) :
    block.memchr cursor.head.toNat 10 cursor.size.toNat = some line.length := by
  rw [here.size, Int.toNat_natCast]
  exact Block.memchr_some here.read clean

/-- Nothing but the line matters for the branch taken at a line end. -/
theorem first_of_line (here : cursor.At block (line ++ 10 :: rest) parsed) (nonempty : line ≠ []) :
    line.head? = some (block cursor.head.toNat) := by
  cases line with
  | nil => exact absurd rfl nonempty
  | cons first tail => simp [(show cursor.At block (first :: (tail ++ 10 :: rest)) parsed from here).first]

theorem blank_iff (here : cursor.At block (line ++ 10 :: rest) parsed) :
    LineEnd (line ++ [10]) ↔ line.length = 0 ∨ line.length = 1 ∧ block cursor.head.toNat = 13 := by
  rw [lineEnd_iff]
  constructor
  · rintro (rfl | rfl)
    · exact .inl rfl
    · exact .inr ⟨rfl, here.first⟩
  · rintro (empty | ⟨single, first⟩)
    · exact .inl (List.eq_nil_of_length_eq_zero empty)
    · obtain ⟨byte, rfl⟩ := List.length_eq_one_iff.mp single
      rw [here.first] at first
      exact .inr (by rw [first])

theorem recvLoop_noLine (here : cursor.At block bytes parsed) (clean : 10 ∉ bytes) :
    recvLoop block fuel cursor data = .notReady := by
  cases fuel with
  | zero => rfl
  | succ fuel =>
      unfold recvLoop
      rw [memchr_none here clean]
      split <;> rfl

theorem recvLoop_line (here : cursor.At block (line ++ 10 :: rest) parsed) (clean : 10 ∉ line) :
    recvLoop block (fuel + 1) cursor data =
      if line.length = 0 ∨ line.length = 1 ∧ block cursor.head.toNat = 13 then
        .packet data (cursor.parsed + (line.length + 1))
      else if isDigit (block cursor.head.toNat) = false then .null
      else if 18 < line.length then .null
      else if atoi line < 0 then .null
      else if wrap32 (cursor.size - wrap32 (line.length + 1 + atoi line)) < 0 then .notReady
      else
        let used := wrap32 (line.length + 1 + atoi line)
        let after : Cursor :=
          ⟨cursor.head + used, wrap32 (cursor.size - used), cursor.parsed + used⟩
        match recordEnd block after with
        | none => .notReady
        | some ending =>
            if (after.advance ending).parsed > maxPacketSize then .null
            else recvLoop block fuel (after.advance ending)
              (data ++ [block.slice (cursor.head + line.length + 1).toNat (atoi line).toNat]) := by
  have size := here.size
  rw [List.length_append, List.length_cons] at size
  have headLen : cursor.head + (line.length : Int) + 1 - cursor.head = line.length + 1 := by omega
  have lineText : block.slice cursor.head.toNat ((line.length : Int) + 1 - 1).toNat = line := by
    rw [show ((line.length : Int) + 1 - 1).toNat = line.length by omega]
    exact (Block.slice_of_append here.read).1
  have digit : (block cursor.head.toNat < 48 ∨ 57 < block cursor.head.toNat) ↔
      isDigit (block cursor.head.toNat) = false := by
    rw [← Bool.not_eq_true, isDigit_iff]
    simp only [UInt8.lt_iff_toNat_lt, UInt8.reduceToNat]
    omega
  conv_lhs => unfold recvLoop
  rw [if_pos (by omega), memchr_line here clean]
  simp only [headLen, lineText, digit]
  exact if_congr (or_congr (by omega) (and_congr_left fun _ => by omega)) rfl
    (if_congr Iff.rfl rfl (if_congr (by omega) rfl rfl))

theorem recvLoop_close {ending : Bytes} (here : cursor.At block (ending ++ rest) parsed)
    (ended : LineEnd ending) :
    recvLoop block (fuel + 1) cursor data = .packet data (parsed + ending.length) := by
  obtain ⟨line, rfl, clean⟩ : ∃ line, ending = line ++ [10] ∧ 10 ∉ line := by
    cases ended with
    | lf => exact ⟨[], rfl, by simp⟩
    | crlf => exact ⟨[13], rfl, by simp⟩
  rw [List.append_assoc, List.singleton_append] at here
  rw [recvLoop_line here clean, if_pos ((blank_iff here).mp ended), here.parsedEq]
  simp

theorem recvLoop_bad (here : cursor.At block (line ++ 10 :: rest) parsed) (clean : 10 ∉ line)
    (nonblank : ¬ LineEnd (line ++ [10])) (bad : ∀ length, ¬ Header line length) :
    recvLoop block (fuel + 1) cursor data = .null := by
  have nonempty : line ≠ [] := by
    intro same
    subst same
    exact nonblank .lf
  rw [recvLoop_line here clean, if_neg (mt (blank_iff here).mpr nonblank)]
  by_cases digit : isDigit (block cursor.head.toNat) = false
  · rw [if_pos digit]
  · by_cases short : 18 < line.length
    · rw [if_neg digit, if_pos short]
    · -- the only fault left is a negative value
      have negative : atoi line < 0 := by
        by_contra positive
        refine bad (atoi line).toNat ⟨clean, by omega, ?_, by omega⟩
        exact ⟨_, first_of_line here nonempty, by simpa using digit⟩
      rw [if_neg digit, if_neg short, if_pos negative]

theorem recvLoop_header {length : Nat} (here : cursor.At block (line ++ 10 :: rest) parsed)
    (header : Header line length) :
    recvLoop block (fuel + 1) cursor data =
      if rest.length < length then .notReady
      else
        match recordEnd block (cursor.advance (line.length + 1 + length)) with
        | none => .notReady
        | some ending =>
            let next := (cursor.advance (line.length + 1 + length)).advance ending
            if next.parsed > maxPacketSize then .null
            else recvLoop block fuel next (data ++ [rest.take length]) := by
  have size := here.size
  have bound := here.bound
  have head := here.headNonneg
  rw [List.length_append, List.length_cons] at size bound
  have short := header.short
  have small := header.length_lt
  have value := header.value
  obtain ⟨first, isFirst, digit⟩ := header.startsWithDigit
  rw [first_of_line here header.line_ne_nil] at isFirst
  cases isFirst
  rw [recvLoop_line here header.noNewline,
    if_neg (mt (blank_iff here).mpr header.nonblank), if_neg (by simp [digit]),
    if_neg (by omega), if_neg (by omega), value]
  have left : wrap32 (cursor.size - wrap32 ((line.length : Int) + 1 + length)) =
      cursor.size - (line.length + 1 + length) := wrap32_sub_wrap32 (by omega) (by omega)
  rw [left]
  by_cases missing : rest.length < length
  · rw [if_pos missing, if_pos (by omega)]
  · have used : wrap32 ((line.length : Int) + 1 + length) = line.length + 1 + length :=
      wrap32_of_range (by omega) (by omega)
    have exact_size : wrap32 (cursor.size - ((line.length : Int) + 1 + length)) =
        cursor.size - (line.length + 1 + length) := wrap32_of_range (by omega) (by omega)
    have body : block.slice (cursor.head + line.length + 1).toNat length = rest.take length := by
      have split : cursor.At block (line ++ [10] ++ rest) parsed := by simpa using here
      have tail := (split.advance (line ++ [10])).read
      rw [← tail, Block.slice_take (Nat.not_lt.mp missing)]
      simp [Cursor.advance, Int.add_assoc]
    rw [if_neg missing, if_neg (by omega), used, Int.toNat_natCast, body]
    simp only [exact_size, Cursor.advance]
    rfl

theorem recordEnd_some {ending : Bytes} (here : cursor.At block (ending ++ rest) parsed)
    (ended : LineEnd ending) : recordEnd block cursor = some (ending.length : Int) := by
  have size := here.size
  cases ended with
  | lf =>
      rw [recordEnd, if_pos ⟨by simp at size; omega, here.first⟩]
      rfl
  | crlf =>
      have second := (Cursor.At.advance [13] here).first
      simp only [List.cons_append, List.nil_append, List.length_cons] at size
      rw [recordEnd, if_neg (by simp [here.first]), if_pos ⟨by omega, here.first, second⟩]
      rfl

theorem recordEnd_none (here : cursor.At block bytes parsed)
    (unended : ∀ ending rest, LineEnd ending → bytes ≠ ending ++ rest) :
    recordEnd block cursor = none := by
  have size := here.size
  match bytes with
  | [] => simp_all [recordEnd]
  | [byte] =>
      have lf : byte ≠ 10 := fun same => unended [10] [] .lf (by simp [same])
      simp only [List.length_singleton] at size
      rw [recordEnd, if_neg (by simp [here.first, lf]), if_neg (by omega)]
  | byte :: next :: rest =>
      have second := (Cursor.At.advance [byte] here).first
      have lf : byte ≠ 10 := fun same => unended [10] (next :: rest) .lf (by simp [same])
      have crlf : ¬ (byte = 13 ∧ next = 10) := fun same =>
        unended [13, 10] rest .crlf (by simp [same])
      have third : block (cursor.head + 1).toNat = next := second
      rw [recordEnd, if_neg (by simp [here.first, lf]),
        if_neg (fun found => crlf (by simpa [here.first, third] using found.2))]

/-! ### The whole loop -/

def Scan.of (data : List Bytes) (records : List Record) : Verdict → Scan
  | .null => .null
  | .notReady => .notReady
  | .complete used => .packet (data ++ bodies records) used

theorem recvLoop_record (record : Record) (here : cursor.At block (record.text ++ rest) parsed) :
    recvLoop block (fuel + 1) cursor data =
      if parsed + record.text.length ≤ maxPacketSize then
        recvLoop block fuel (cursor.advance record.text.length) (data ++ [record.body])
      else
        .null := by
  have headed : cursor.At block (record.line ++ 10 :: (record.body ++ (record.ending ++ rest))) parsed := by
    simpa [Record.text] using here
  have front : cursor.At block
      ((record.line ++ 10 :: record.body) ++ (record.ending ++ rest)) parsed := by
    simpa using headed
  have width : ((record.line ++ 10 :: record.body).length : Int) =
      record.line.length + 1 + record.body.length := by
    simp only [List.length_append, List.length_cons]
    omega
  have atEnding := front.advance
  rw [width] at atEnding
  have next : (cursor.advance (record.line.length + 1 + record.body.length)).advance
      record.ending.length = cursor.advance record.text.length := by
    simp only [Cursor.advance, Cursor.mk.injEq, record.text_length]
    omega
  rw [recvLoop_header headed record.header, if_neg (by simp), recordEnd_some atEnding record.ended]
  simp only [List.take_left, next]
  have count := (Cursor.At.advance _ here).parsedEq
  by_cases fits : parsed + record.text.length ≤ maxPacketSize
  · rw [if_pos fits, if_neg (by omega)]
  · rw [if_neg fits, if_pos (by omega)]

theorem recvLoop_ends {verdict : Verdict} (here : cursor.At block bytes parsed)
    (stops : Ends maxPacketSize parsed bytes verdict) :
    recvLoop block (fuel + 1) cursor data = Scan.of data [] verdict := by
  cases stops with
  | unfinished waits =>
      cases waits with
      | noLine clean => exact recvLoop_noLine here clean
      | shortBody header missing => rw [recvLoop_header here header, if_pos missing]; rfl
      | @noEnding line body after header unended =>
          have front : cursor.At block ((line ++ 10 :: body) ++ after) parsed := by simpa using here
          have width : ((line ++ 10 :: body).length : Int) = line.length + 1 + body.length := by
            simp only [List.length_append, List.length_cons]
            omega
          have atEnding := front.advance
          rw [width] at atEnding
          rw [recvLoop_header here header, if_neg (by simp), recordEnd_none atEnding unended]
          rfl
  | badHeader clean nonblank bad => exact recvLoop_bad here clean nonblank bad
  | tooLong record long =>
      rw [recvLoop_record record here, if_neg (by omega)]
      rfl
  | close ended =>
      rw [recvLoop_close here ended]
      simp [Scan.of, bodies]

/-- The loop computes the verdict of the format, in as many rounds as there
are bytes to read. -/
theorem recvLoop_scans {records : List Record} {verdict : Verdict}
    (scans : Scans maxPacketSize parsed bytes records verdict) (here : cursor.At block bytes parsed)
    (enough : bytes.length < fuel) :
    recvLoop block fuel cursor data = Scan.of data records verdict := by
  induction scans generalizing cursor fuel data with
  | ends stops =>
      obtain ⟨fuel, rfl⟩ := Nat.exists_eq_add_one.mpr (Nat.zero_lt_of_lt enough)
      exact recvLoop_ends here stops
  | @record parsed rest records verdict first fits more ih =>
      obtain ⟨fuel, rfl⟩ := Nat.exists_eq_add_one.mpr (Nat.zero_lt_of_lt enough)
      have positive := first.text_length_pos
      rw [List.length_append] at enough
      rw [recvLoop_record first here, if_pos fits, ih here.advance (by omega)]
      cases verdict <;> simp [Scan.of, bodies]

/-! ### `recv` -/

variable {link : Link} {errno : Errno} {records : List Record}

/-- The content does not ask for the Redis protocol. -/
def PlainSsdb (content : Bytes) : Prop :=
  content.head? ≠ some 42

instance (content : Bytes) : Decidable (PlainSsdb content) :=
  inferInstanceAs (Decidable (content.head? ≠ some 42))

theorem head_of_content {buffer : Buffer} {byte : UInt8}
    (first : buffer.content.head? = some byte) : buffer.buf buffer.data.toNat = byte := by
  cases content : buffer.content with
  | nil => simp [content] at first
  | cons head rest =>
      rw [content] at first
      cases first
      exact Block.head_of_slice content

def Received.of (link : Link) (errno : Errno) (records : List Record) : Verdict → Received
  | .null => ⟨none, link, errno⟩
  | .complete used => ⟨some (bodies records), { link with input := link.input.decr used }, errno⟩
  | .notReady => ⟨if link.input.makeRoom.1 then some [] else none,
      { link with input := link.input.makeRoom.2 }, errno⟩

theorem recv_ssdb (valid : link.input.WellFormed) (plain : PlainSsdb link.input.content)
    (nonempty : link.input.content ≠ []) {verdict : Verdict}
    (reads : Reads maxPacketSize link.input.content records verdict) :
    link.recv errno = Received.of link errno records verdict := by
  have occupied : link.input.empty ≠ true := mt valid.empty_iff.mp nonempty
  have notStar : link.input.buf link.input.data.toNat ≠ 42 := by
    cases content : link.input.content with
    | nil => exact absurd content nonempty
    | cons first rest =>
        rw [head_of_content (show _ = some first by rw [content]; rfl)]
        intro star
        exact plain (by rw [content, star]; rfl)
  have size := valid.size_eq
  have start : Cursor.At link.input.buf ⟨link.input.data, link.input.size, 0⟩ link.input.content 0 := by
    refine ⟨valid.dataNonneg, size, rfl, by simpa using valid.content_length_lt, ?_⟩
    rw [Buffer.content_length]
    rfl
  have skipped := skipBlank_spec start (show _ ≤ link.input.size.toNat by omega)
  rw [Nat.zero_add] at skipped
  have shorter : (link.input.content.dropWhile isBlank).length ≤ link.input.content.length :=
    (List.dropWhile_suffix _).length_le
  have parse : recvLoop _ (link.input.size.toNat + 1) _ [] = _ :=
    recvLoop_scans reads skipped (by omega)
  unfold recv
  rw [if_neg occupied, if_neg notStar]
  simp only [parse]
  cases verdict <;> simp [Scan.of, Received.of]

theorem recv_empty (valid : link.input.WellFormed) (empty : link.input.content = []) :
    link.recv errno = ⟨some [], link, errno⟩ := by
  rw [recv, if_pos (valid.empty_iff.mpr empty)]

end Dbss.Net.Link
