import Dbss.Net.Link.Recv

namespace Dbss.Net.Link

open Dbss.Data Dbss.Util Dbss.Ssdb

/-! `Link::recv` with every byte it touches checked: the check never fails, the
rounds suffice, and the result is that of `recv`. -/

structure Range where
  start : Int
  length : Int
deriving DecidableEq

namespace Range

def stop (range : Range) : Int :=
  range.start + range.length

def Within (range : Range) (low high : Int) : Prop :=
  low ≤ range.start ∧ 0 ≤ range.length ∧ range.stop ≤ high

instance decidableWithin (range : Range) (low high : Int) : Decidable (range.Within low high) :=
  inferInstanceAs (Decidable (_ ∧ _))

def text (block : Block) (range : Range) : Bytes :=
  block.slice range.start.toNat range.length.toNat

end Range

/-- Goes on with `next` if the bytes touched lie within the bounds. -/
def touch {α : Type} (low high : Int) (range : Range) (next : Option α) : Option α :=
  if range.Within low high then next else none

/-! ### The checked code

`none` stands for a byte outside the content `[low, high)` or outside
`head_str`, and for rounds used up.  All sums of `int`s are wrapped. -/

def checkedSkip (block : Block) (low high : Int) : Nat → Cursor → Option Cursor
  | 0, _ => none
  | fuel + 1, cursor =>
      if cursor.size > 0 then
        touch low high ⟨cursor.head, 1⟩ <|
          if block cursor.head.toNat = 10 ∨ block cursor.head.toNat = 13 then
            checkedSkip block low high fuel
              ⟨cursor.head + 1, wrap32 (cursor.size - 1), wrap32 (cursor.parsed + 1)⟩
          else
            some cursor
      else
        some cursor

def checkedEnd (block : Block) (low high : Int) (cursor : Cursor) : Option (Option Int) :=
  if cursor.size > 0 then
    touch low high ⟨cursor.head, 1⟩ <|
      if block cursor.head.toNat = 10 then
        some (some 1)
      else if cursor.size > 1 ∧ block cursor.head.toNat = 13 then
        touch low high ⟨cursor.head + 1, 1⟩ <|
          if block (cursor.head + 1).toNat = 10 then some (some 2) else some none
      else
        some none
  else
    some none

/-- The ways out of `recv`; `empty` is the one before the parse. -/
inductive Exit where
  | empty
  | null
  | notReady
  | packet (parsed : Int)
deriving DecidableEq

/-- The record loop, with the ranges pushed to `recv_data` so far. -/
def checkedLoop (block : Block) (low high : Int) : Nat → Cursor → List Range → Option (List Range × Exit)
  | 0, _, _ => none
  | fuel + 1, cursor, ranges =>
      if cursor.size > 0 then
        touch low high ⟨cursor.head, cursor.size⟩ <|
          match block.memchr cursor.head.toNat 10 cursor.size.toNat with
          | none => some (ranges, .notReady)
          | some found =>
              let body := cursor.head + found + 1
              let headLen := body - cursor.head
              if headLen = 1 then
                some (ranges, .packet (wrap32 (cursor.parsed + headLen)))
              else
                touch low high ⟨cursor.head, 1⟩ <|
                  let first := block cursor.head.toNat
                  if headLen = 2 ∧ first = 13 then
                    some (ranges, .packet (wrap32 (cursor.parsed + headLen)))
                  else if first < 48 ∨ 57 < first then
                    some (ranges, .null)
                  else if headLen > 20 - 1 then
                    some (ranges, .null)
                  else
                    -- the copy to head_str, and the terminator behind it
                    touch low high ⟨cursor.head, headLen - 1⟩ <|
                    touch 0 20 ⟨0, headLen - 1⟩ <|
                    touch 0 20 ⟨headLen - 1, 1⟩ <|
                      let bodyLen := atoi (block.slice cursor.head.toNat (headLen - 1).toNat)
                      if bodyLen < 0 then
                        some (ranges, .null)
                      else
                        let used := wrap32 (headLen + bodyLen)
                        let size := wrap32 (cursor.size - used)
                        if size < 0 then
                          some (ranges, .notReady)
                        else
                          let ranges := ranges ++ [⟨body, bodyLen⟩]
                          let after : Cursor := ⟨cursor.head + used, size, wrap32 (cursor.parsed + used)⟩
                          (checkedEnd block low high after).bind fun
                            | none => some (ranges, .notReady)
                            | some ending =>
                                let next : Cursor := ⟨after.head + ending, wrap32 (after.size - ending),
                                  wrap32 (after.parsed + ending)⟩
                                if next.parsed > maxPacketSize then some (ranges, .null)
                                else checkedLoop block low high fuel next ranges
      else
        some (ranges, .notReady)

def checkedRecv (input : Buffer) : Option (List Range × Exit) :=
  if input.empty then
    some ([], .empty)
  else
    let low := input.data
    let high := input.data + input.size
    touch low high ⟨input.data, 1⟩ <|
      (checkedSkip input.buf low high (input.size.toNat + 1) ⟨input.data, input.size, 0⟩).bind fun start =>
        checkedLoop input.buf low high (input.size.toNat + 1) start []

/-! ### Cursors -/

section

variable {block : Block} {low high : Int} {cursor : Cursor} {ranges : List Range}

theorem touch_within {α : Type} {range : Range} {next : Option α} (within : range.Within low high) :
    touch low high range next = next :=
  if_pos within

/-- The cursor divides the content in what is parsed and what is left. -/
structure Spans (low high : Int) (cursor : Cursor) : Prop where
  lowNonneg : 0 ≤ low
  bound : high - low < 2147483648
  head : cursor.head = low + cursor.parsed
  parsedNonneg : 0 ≤ cursor.parsed
  sizeNonneg : 0 ≤ cursor.size
  whole : cursor.head + cursor.size = high

theorem Spans.advance (spans : Spans low high cursor) {count : Int} (nonneg : 0 ≤ count)
    (within : count ≤ cursor.size) : Spans low high (cursor.advance count) := by
  have := spans.head
  have := spans.parsedNonneg
  have := spans.whole
  refine ⟨spans.lowNonneg, spans.bound, ?_, ?_, ?_, ?_⟩ <;> simp only [Cursor.advance] <;> omega

theorem Spans.parsed_eq (spans : Spans low high cursor) {count : Int} (nonneg : 0 ≤ count)
    (within : count ≤ cursor.size) : wrap32 (cursor.parsed + count) = cursor.parsed + count := by
  have := spans.bound
  have := spans.head
  have := spans.parsedNonneg
  have := spans.whole
  exact wrap32_of_range (by omega) (by omega)

theorem Spans.advance_eq (spans : Spans low high cursor) {count : Int} (nonneg : 0 ≤ count)
    (within : count ≤ cursor.size) :
    (⟨cursor.head + count, wrap32 (cursor.size - count), wrap32 (cursor.parsed + count)⟩ : Cursor) =
      cursor.advance count := by
  have := spans.bound
  have := spans.head
  have := spans.parsedNonneg
  have := spans.whole
  rw [spans.parsed_eq nonneg within, wrap32_of_range (by omega) (by omega)]
  rfl

theorem Spans.within (spans : Spans low high cursor) {offset count : Int} (nonneg : 0 ≤ offset)
    (positive : 0 ≤ count) (inside : offset + count ≤ cursor.size) :
    (⟨cursor.head + offset, count⟩ : Range).Within low high := by
  have := spans.head
  have := spans.parsedNonneg
  have := spans.whole
  refine ⟨?_, positive, ?_⟩ <;> simp only [Range.stop] <;> omega

theorem Spans.within_head (spans : Spans low high cursor) {count : Int} (positive : 0 ≤ count)
    (inside : count ≤ cursor.size) : (⟨cursor.head, count⟩ : Range).Within low high := by
  have within := spans.within (le_refl 0) positive (by omega : 0 + count ≤ cursor.size)
  rwa [Int.add_zero] at within

theorem Spans.within_byte (spans : Spans low high cursor) (occupied : cursor.size > 0) :
    (⟨cursor.head, 1⟩ : Range).Within low high :=
  spans.within_head (by decide) (by omega)

theorem checkedSkip_spec (block : Block) (fuel : Nat) (spans : Spans low high cursor) (enough : cursor.size ≤ fuel) :
    checkedSkip block low high (fuel + 1) cursor = some (skipBlank block fuel cursor) ∧
      Spans low high (skipBlank block fuel cursor) ∧
      (0 < (skipBlank block fuel cursor).size →
        isBlank (block (skipBlank block fuel cursor).head.toNat) = false) := by
  induction fuel generalizing cursor with
  | zero =>
      have empty : ¬ cursor.size > 0 := by omega
      refine ⟨?_, spans, fun some => absurd some empty⟩
      rw [checkedSkip, if_neg empty]
      rfl
  | succ fuel ih =>
      rw [checkedSkip, skipBlank]
      by_cases occupied : cursor.size > 0
      · rw [if_pos occupied, touch_within (spans.within_byte occupied)]
        by_cases blank : block cursor.head.toNat = 10 ∨ block cursor.head.toNat = 13
        · rw [if_pos blank, if_pos ⟨occupied, blank⟩, spans.advance_eq (by decide) (by omega)]
          refine ih (spans.advance (by decide) (by omega)) ?_
          simp only [Cursor.advance]
          omega
        · rw [if_neg blank, if_neg fun both => blank both.2]
          exact ⟨rfl, spans, fun _ => by simpa [isBlank] using blank⟩
      · rw [if_neg occupied, if_neg fun both => occupied both.1]
        exact ⟨rfl, spans, fun more => absurd more occupied⟩

theorem checkedEnd_eq (spans : Spans low high cursor) :
    checkedEnd block low high cursor = some (recordEnd block cursor) := by
  unfold checkedEnd recordEnd
  by_cases occupied : cursor.size > 0
  · rw [if_pos occupied, touch_within (spans.within_byte occupied)]
    by_cases lf : block cursor.head.toNat = 10
    · rw [if_pos lf, if_pos ⟨occupied, lf⟩]
    · have noLf : ¬ (cursor.size > 0 ∧ block cursor.head.toNat = 10) := fun both => lf both.2
      rw [if_neg lf, if_neg noLf]
      by_cases cr : cursor.size > 1 ∧ block cursor.head.toNat = 13
      · rw [if_pos cr, touch_within (spans.within (by decide) (by decide) (by omega))]
        by_cases next : block (cursor.head + 1).toNat = 10
        · rw [if_pos next, if_pos ⟨cr.1, cr.2, next⟩]
        · rw [if_neg next, if_neg fun all => next all.2.2]
      · rw [if_neg cr, if_neg fun all => cr ⟨all.1, all.2.1⟩]
  · rw [if_neg occupied, if_neg fun both => occupied both.1, if_neg fun all => by omega]

theorem slice_pair {start : Int} (nonneg : 0 ≤ start) :
    block.slice start.toNat 2 = [block start.toNat, block (start + 1).toNat] := by
  rw [Block.slice_succ, Block.slice_succ, Block.slice_zero, show (start + 1).toNat = start.toNat + 1 by omega]

theorem recordEnd_found {count : Int} (nonneg : 0 ≤ cursor.head) (found : recordEnd block cursor = some count) :
    ∃ ending, LineEnd ending ∧ count = ending.length ∧ count ≤ cursor.size ∧
      block.slice cursor.head.toNat ending.length = ending := by
  unfold recordEnd at found
  split at found
  · next lf =>
      cases found
      exact ⟨[10], .lf, rfl, lf.1, by simp [Block.slice_succ, lf.2]⟩
  · split at found
    · next crlf =>
        cases found
        refine ⟨[13, 10], .crlf, rfl, crlf.1, ?_⟩
        rw [List.length_cons, List.length_singleton, slice_pair nonneg, crlf.2.1, crlf.2.2]
    · cases found

/-! ### The record loop -/

/-- Each range ends before the next one starts. -/
def Ordered (ranges : List Range) : Prop :=
  ranges.Pairwise fun earlier later => earlier.stop < later.start

/-- The ranges lie before the cursor, in order, and the last one is followed by
the line end the cursor stands behind. -/
structure Walks (block : Block) (low high : Int) (cursor : Cursor) (ranges : List Range) : Prop
    extends Spans low high cursor where
  inside : ∀ range ∈ ranges, range.Within low cursor.head
  ordered : Ordered ranges
  closed : ∀ last ∈ ranges.getLast?, ∃ ending, LineEnd ending ∧
    cursor.head = last.stop + ending.length ∧ block.slice last.stop.toNat ending.length = ending
  begun : ranges = [] → 0 < cursor.size → isBlank (block cursor.head.toNat) = false

/-- Between the last range and `stop` there are the end of its line and the
empty line that ends the packet. -/
def ClosedAt (block : Block) (ranges : List Range) (stop : Int) : Prop :=
  ∃ last ∈ ranges.getLast?, ∃ recordEnd packetEnd, LineEnd recordEnd ∧ LineEnd packetEnd ∧
    stop = last.stop + (recordEnd ++ packetEnd).length ∧
    block.slice last.stop.toNat (recordEnd ++ packetEnd).length = recordEnd ++ packetEnd

/-- What is pushed lies inside the content, in order; a packet takes a prefix
that covers it and ends with the packet's last newline. -/
structure Safe (block : Block) (low high : Int) (ranges : List Range) (exit : Exit) : Prop where
  inside : ∀ range ∈ ranges, range.Within low high
  ordered : Ordered ranges
  packet : ∀ parsed, exit = .packet parsed → 0 < parsed ∧ low + parsed ≤ high ∧
    (∀ range ∈ ranges, range.Within low (low + parsed)) ∧ ClosedAt block ranges (low + parsed)

theorem Range.Within.mono {range : Range} {stop : Int} (within : range.Within low stop) (more : stop ≤ high) :
    range.Within low high :=
  ⟨within.1, within.2.1, within.2.2.trans more⟩

theorem Walks.stops (walks : Walks block low high cursor ranges) {exit : Exit}
    (other : ∀ parsed, exit ≠ .packet parsed) : Safe block low high ranges exit := by
  have := walks.sizeNonneg
  have := walks.whole
  exact ⟨fun range member => (walks.inside range member).mono (by omega), walks.ordered,
    fun parsed same => absurd same (other parsed)⟩

theorem Walks.packet (walks : Walks block low high cursor ranges) {ending : Bytes} (ended : LineEnd ending)
    (within : ending.length ≤ cursor.size) (read : block.slice cursor.head.toNat ending.length = ending) :
    Safe block low high ranges (.packet (wrap32 (cursor.parsed + ending.length))) := by
  have lowNonneg := walks.lowNonneg
  have head := walks.head
  have parsedNonneg := walks.parsedNonneg
  have whole := walks.whole
  have positive : 0 < ending.length := by cases ended <;> simp
  rw [walks.parsed_eq (by omega) within]
  refine ⟨fun range member => (walks.inside range member).mono (by omega), walks.ordered, ?_⟩
  rintro _ ⟨⟩
  refine ⟨by omega, by omega, fun range member => (walks.inside range member).mono (by omega), ?_⟩
  cases final : ranges.getLast? with
  | none =>
      have fresh := walks.begun (List.getLast?_eq_none_iff.mp final) (by omega)
      cases ended with
      | lf => rw [Block.head_of_slice read] at fresh; exact absurd fresh (by decide)
      | crlf => rw [Block.head_of_slice read] at fresh; exact absurd fresh (by decide)
  | some last =>
      obtain ⟨lineEnd, lineEnded, gap, text⟩ := walks.closed last final
      obtain ⟨_, _, stopInside⟩ := walks.inside last (List.mem_of_getLast? final)
      obtain ⟨lastLow, lastLength, _⟩ := walks.inside last (List.mem_of_getLast? final)
      have stopNonneg : 0 ≤ last.stop := by
        simp only [Range.stop]
        omega
      refine ⟨last, final, lineEnd, ending, lineEnded, ended, ?_, ?_⟩
      · rw [List.length_append]
        omega
      · rw [List.length_append, Block.slice_add, text,
          show last.stop.toNat + lineEnd.length = cursor.head.toNat by omega, read]

theorem Walks.push (walks : Walks block low high cursor ranges) {body length stop : Int}
    (behind : cursor.head < body) (nonneg : 0 ≤ length) (within : body + length ≤ stop) :
    (∀ range ∈ ranges ++ [Range.mk body length], range.Within low stop) ∧
      Ordered (ranges ++ [Range.mk body length]) := by
  have head := walks.head
  have parsedNonneg := walks.parsedNonneg
  constructor
  · intro range member
    rcases List.mem_append.mp member with earlier | new
    · exact (walks.inside range earlier).mono (by omega)
    · obtain rfl := List.mem_singleton.mp new
      refine ⟨?_, nonneg, within⟩
      simp only
      omega
  · rw [Ordered, List.pairwise_append]
    refine ⟨walks.ordered, List.pairwise_singleton _ _, fun earlier member later new => ?_⟩
    obtain rfl := List.mem_singleton.mp new
    have before := (walks.inside earlier member).2.2
    simp only
    omega

theorem Walks.pushed_stops (walks : Walks block low high cursor ranges) {body length : Int}
    (behind : cursor.head < body) (nonneg : 0 ≤ length) (within : body + length ≤ high) {exit : Exit}
    (other : ∀ parsed, exit ≠ .packet parsed) : Safe block low high (ranges ++ [Range.mk body length]) exit := by
  obtain ⟨inside, ordered⟩ := walks.push behind nonneg within
  exact ⟨inside, ordered, fun parsed same => absurd same (other parsed)⟩

/-- The ranges after one more record and its line end. -/
theorem Walks.record (walks : Walks block low high cursor ranges) {after : Cursor} {ending : Bytes}
    {body length : Int} (behind : cursor.head < body) (nonneg : 0 ≤ length)
    (stop : after.head = body + length) (spans : Spans low high (after.advance ending.length))
    (ended : LineEnd ending) (read : block.slice after.head.toNat ending.length = ending) :
    Walks block low high (after.advance ending.length) (ranges ++ [Range.mk body length]) := by
  have within : body + length ≤ (after.advance ending.length).head := by
    simp only [Cursor.advance]
    omega
  obtain ⟨inside, ordered⟩ := walks.push behind nonneg within
  refine ⟨spans, inside, ordered, ?_, by simp⟩
  intro last final
  rw [List.getLast?_concat] at final
  cases final
  refine ⟨ending, ended, ?_, ?_⟩
  · simp only [Cursor.advance, Range.stop, stop]
  · rwa [Range.stop, ← stop]

/-- What the loop of `recv` makes of an exit. -/
def Exit.scan (data : List Bytes) : Exit → Scan
  | .empty => .notReady
  | .null => .null
  | .notReady => .notReady
  | .packet parsed => .packet data parsed

/-- The checked code comes to an exit that is safe, and the unchecked code to the same. -/
def Agrees (block : Block) (low high : Int) (checked : Option (List Range × Exit)) (scan : Scan) : Prop :=
  ∃ pushed exit, checked = some (pushed, exit) ∧ exit ≠ .empty ∧ Safe block low high pushed exit ∧
    scan = exit.scan (pushed.map (Range.text block))

theorem Walks.null (walks : Walks block low high cursor ranges) :
    Agrees block low high (some (ranges, .null)) .null :=
  ⟨ranges, .null, rfl, by simp, walks.stops (by simp), rfl⟩

theorem Walks.notReady (walks : Walks block low high cursor ranges) :
    Agrees block low high (some (ranges, .notReady)) .notReady :=
  ⟨ranges, .notReady, rfl, by simp, walks.stops (by simp), rfl⟩

theorem Walks.closes (walks : Walks block low high cursor ranges) {ending : Bytes} (ended : LineEnd ending)
    (within : ending.length ≤ cursor.size) (read : block.slice cursor.head.toNat ending.length = ending) :
    Agrees block low high (some (ranges, .packet (wrap32 (cursor.parsed + ending.length))))
      (.packet (ranges.map (Range.text block)) (cursor.parsed + ending.length)) := by
  refine ⟨_, _, rfl, by simp, walks.packet ended within read, ?_⟩
  rw [walks.parsed_eq (by omega) within]
  rfl

/-- The line end that `memchr` and the tests for an empty line have found. -/
theorem blank_found {found : Nat} (newline : block (cursor.head.toNat + found) = 10) (nonneg : 0 ≤ cursor.head)
    (blank : (found : Int) + 1 = 1 ∨ (found : Int) + 1 = 2 ∧ block cursor.head.toNat = 13) :
    ∃ ending, LineEnd ending ∧ (ending.length : Int) = found + 1 ∧
      block.slice cursor.head.toNat ending.length = ending := by
  rcases blank with single | ⟨two, cr⟩
  · have start : found = 0 := by omega
    subst start
    exact ⟨[10], .lf, rfl, by simpa [Block.slice_succ] using newline⟩
  · have start : found = 1 := by omega
    subst start
    refine ⟨[13, 10], .crlf, rfl, ?_⟩
    rw [List.length_cons, List.length_singleton, slice_pair nonneg, cr,
      show (cursor.head + 1).toNat = cursor.head.toNat + 1 by omega, newline]

theorem Walks.closes_line (walks : Walks block low high cursor ranges) {found : Nat}
    (line : block.memchr cursor.head.toNat 10 cursor.size.toNat = some found)
    (blank : (found : Int) + 1 = 1 ∨ (found : Int) + 1 = 2 ∧ block cursor.head.toNat = 13) :
    Agrees block low high (some (ranges, .packet (wrap32 (cursor.parsed + (found + 1)))))
      (.packet (ranges.map (Range.text block)) (cursor.parsed + (found + 1))) := by
  obtain ⟨within, newline⟩ := Block.memchr_found line
  have lowNonneg := walks.lowNonneg
  have parsedNonneg := walks.parsedNonneg
  have head := walks.head
  obtain ⟨ending, ended, length, read⟩ := blank_found newline (by omega) blank
  rw [← length]
  exact walks.closes ended (by omega) read

theorem Walks.pushes (walks : Walks block low high cursor ranges) {after : Cursor} {body length : Int} {fuel : Nat}
    (behind : cursor.head < body) (nonneg : 0 ≤ length) (stop : after.head = body + length)
    (spans : Spans low high after)
    (more : ∀ next, next.size ≤ after.size → Walks block low high next (ranges ++ [Range.mk body length]) →
      Agrees block low high (checkedLoop block low high fuel next (ranges ++ [Range.mk body length]))
        (recvLoop block fuel next ((ranges ++ [Range.mk body length]).map (Range.text block)))) :
    Agrees block low high
      ((checkedEnd block low high after).bind fun
        | none => some (ranges ++ [Range.mk body length], .notReady)
        | some ending =>
            let next : Cursor := ⟨after.head + ending, wrap32 (after.size - ending), wrap32 (after.parsed + ending)⟩
            if next.parsed > maxPacketSize then some (ranges ++ [Range.mk body length], .null)
            else checkedLoop block low high fuel next (ranges ++ [Range.mk body length]))
      (match recordEnd block after with
        | none => .notReady
        | some ending =>
            let next := after.advance ending
            if next.parsed > maxPacketSize then .null
            else recvLoop block fuel next ((ranges ++ [Range.mk body length]).map (Range.text block))) := by
  have inside : body + length ≤ high := by
    have := spans.whole
    have := spans.sizeNonneg
    omega
  have headNonneg : 0 ≤ after.head := by
    have := walks.lowNonneg
    have := walks.head
    have := walks.parsedNonneg
    omega
  rw [checkedEnd_eq spans, Option.bind_some]
  cases closes : recordEnd block after with
  | none => exact ⟨_, _, rfl, by simp, walks.pushed_stops behind nonneg inside (by simp), rfl⟩
  | some count =>
      obtain ⟨ending, ended, rfl, fits, read⟩ := recordEnd_found headNonneg closes
      have next := spans.advance (Int.natCast_nonneg _) fits
      simp only [spans.advance_eq (Int.natCast_nonneg _) fits]
      rw [spans.parsed_eq (Int.natCast_nonneg _) fits]
      by_cases tooLong : (after.advance ending.length).parsed > maxPacketSize
      · have tooLong' : after.parsed + ending.length > maxPacketSize := tooLong
        rw [if_pos tooLong', if_pos tooLong]
        exact ⟨_, _, rfl, by simp, walks.pushed_stops behind nonneg inside (by simp), rfl⟩
      · have short : ¬ after.parsed + ending.length > maxPacketSize := tooLong
        rw [if_neg short, if_neg tooLong]
        refine more _ ?_ (walks.record behind nonneg stop next ended read)
        simp only [Cursor.advance]
        omega

/-- No check of the loop fails, its rounds suffice, and it computes what the
unchecked loop does. -/
theorem checkedLoop_spec (fuel : Nat) (walks : Walks block low high cursor ranges) (enough : cursor.size < fuel) :
    Agrees block low high (checkedLoop block low high fuel cursor ranges)
      (recvLoop block fuel cursor (ranges.map (Range.text block))) := by
  induction fuel generalizing cursor ranges with
  | zero =>
      have := walks.sizeNonneg
      omega
  | succ fuel ih =>
      have lowNonneg := walks.lowNonneg
      have bound := walks.bound
      have head := walks.head
      have parsedNonneg := walks.parsedNonneg
      have whole := walks.whole
      rw [checkedLoop, recvLoop]
      by_cases occupied : cursor.size > 0
      swap
      · rw [if_neg occupied, if_neg occupied]
        exact walks.notReady
      rw [if_pos occupied, if_pos occupied, touch_within (walks.within_head walks.sizeNonneg (le_refl _))]
      cases line : block.memchr cursor.head.toNat 10 cursor.size.toNat with
      | none => exact walks.notReady
      | some found =>
          obtain ⟨within, newline⟩ := Block.memchr_found line
          have headLen : cursor.head + (found : Int) + 1 - cursor.head = found + 1 := by omega
          simp only [headLen]
          by_cases single : (found : Int) + 1 = 1
          · rw [if_pos single, if_pos (.inl single)]
            exact walks.closes_line line (.inl single)
          rw [if_neg single, touch_within (walks.within_byte occupied)]
          by_cases crlf : (found : Int) + 1 = 2 ∧ block cursor.head.toNat = 13
          · rw [if_pos crlf, if_pos (.inr crlf)]
            exact walks.closes_line line (.inr crlf)
          rw [if_neg crlf, if_neg (not_or.mpr ⟨single, crlf⟩)]
          by_cases digit : block cursor.head.toNat < 48 ∨ 57 < block cursor.head.toNat
          · rw [if_pos digit, if_pos digit]
            exact walks.null
          rw [if_neg digit, if_neg digit]
          by_cases long : (found : Int) + 1 > 20 - 1
          · rw [if_pos long, if_pos long]
            exact walks.null
          rw [if_neg long, if_neg long, touch_within (walks.within_head (by omega) (by omega)),
            touch_within ⟨by simp, by simp only; omega, by simp only [Range.stop]; omega⟩,
            touch_within ⟨by simp only; omega, by simp, by simp only [Range.stop]; omega⟩]
          have small : atoi (block.slice cursor.head.toNat ((found : Int) + 1 - 1).toNat) < 2147483648 :=
            (wrap32_range _).2
          generalize atoi (block.slice cursor.head.toNat ((found : Int) + 1 - 1).toNat) = bodyLen at small ⊢
          by_cases negative : bodyLen < 0
          · rw [if_pos negative, if_pos negative]
            exact walks.null
          have left : wrap32 (cursor.size - wrap32 (found + 1 + bodyLen)) = cursor.size - (found + 1 + bodyLen) :=
            wrap32_sub_wrap32 (by omega) (by omega)
          rw [if_neg negative, if_neg negative, left]
          by_cases missing : cursor.size - (found + 1 + bodyLen) < 0
          · rw [if_pos missing, if_pos missing]
            exact walks.notReady
          have used : wrap32 (found + 1 + bodyLen) = found + 1 + bodyLen := wrap32_of_range (by omega) (by omega)
          rw [if_neg missing, if_neg missing, used, walks.parsed_eq (by omega) (by omega)]
          have spans : Spans low high (cursor.advance (found + 1 + bodyLen)) :=
            walks.toSpans.advance (by omega) (by omega)
          have stop : (cursor.advance (found + 1 + bodyLen)).head = cursor.head + found + 1 + bodyLen := by
            simp only [Cursor.advance]
            omega
          have pushed : ranges.map (Range.text block) ++
              [block.slice (cursor.head + found + 1).toNat bodyLen.toNat] =
                (ranges ++ [Range.mk (cursor.head + found + 1) bodyLen]).map (Range.text block) := by
            simp [Range.text]
          rw [pushed]
          refine walks.pushes (by omega) (by omega) stop spans fun next shorter later => ih later ?_
          simp only at shorter
          omega

end

/-! ### `recv` -/

variable {link : Link} {errno : Errno}

def Exit.received (link : Link) (errno : Errno) (ranges : List Range) : Exit → Received
  | .empty => ⟨some [], link, errno⟩
  | .null => ⟨none, link, errno⟩
  | .notReady => ⟨if link.input.makeRoom.1 then some [] else none,
      { link with input := link.input.makeRoom.2 }, errno⟩
  | .packet parsed => ⟨some (ranges.map (Range.text link.input.buf)),
      { link with input := link.input.decr parsed }, errno⟩

theorem checkedRecv_spec (valid : link.input.WellFormed) (plain : PlainSsdb link.input.content) (errno : Errno) :
    ∃ ranges exit, checkedRecv link.input = some (ranges, exit) ∧
      link.recv errno = exit.received link errno ranges ∧
      Safe link.input.buf link.input.data (link.input.data + link.input.size) ranges exit := by
  unfold checkedRecv
  by_cases empty : link.input.empty = true
  · rw [if_pos empty, recv, if_pos empty]
    exact ⟨[], .empty, rfl, rfl, by simp, .nil, by simp⟩
  · have nonempty := mt valid.empty_iff.mpr empty
    have size := valid.size_eq
    have inside := valid.inside
    have total := valid.totalBound
    have dataNonneg := valid.dataNonneg
    have some : 0 < link.input.content.length := List.length_pos_iff.mpr nonempty
    have notStar : link.input.buf link.input.data.toNat ≠ 42 := by
      obtain ⟨first, rest, content⟩ := List.exists_cons_of_ne_nil nonempty
      rw [head_of_content (show _ = Option.some first by rw [content]; rfl)]
      intro star
      exact plain (by rw [content, star]; rfl)
    have start : Spans link.input.data (link.input.data + link.input.size) ⟨link.input.data, link.input.size, 0⟩ :=
      ⟨dataNonneg, by omega, by simp, le_refl _, valid.sizeNonneg, rfl⟩
    obtain ⟨skipped, spans, fresh⟩ := checkedSkip_spec link.input.buf link.input.size.toNat start
      (by simp only; omega)
    have walks : Walks link.input.buf _ _ _ [] := ⟨spans, by simp, .nil, by simp, fun _ => fresh⟩
    have enough := spans.parsedNonneg
    have whole := spans.whole
    have head := spans.head
    obtain ⟨ranges, exit, checked, other, safe, scan⟩ := checkedLoop_spec (link.input.size.toNat + 1) walks
      (by omega)
    refine ⟨ranges, exit, ?_, ?_, safe⟩
    · simp only [if_neg empty]
      rw [touch_within (start.within_byte (by simp only; omega)), skipped]
      exact checked
    · rw [recv, if_neg empty, if_neg notStar]
      simp only [List.map_nil] at scan
      simp only [scan]
      cases exit with
      | empty => exact absurd rfl other
      | null => rfl
      | notReady => rfl
      | packet parsed => rfl

/-- `recv` touches no byte outside the content and `head_str`, pushes ranges of
the content in order, and takes nothing or a packet up to its last newline. -/
theorem recv_safe (valid : link.input.WellFormed) (plain : PlainSsdb link.input.content) (errno : Errno) :
    ∃ ranges exit, checkedRecv link.input = some (ranges, exit) ∧
      link.recv errno = exit.received link errno ranges ∧
      Safe link.input.buf link.input.data (link.input.data + link.input.size) ranges exit ∧
      (((link.recv errno).value = none ∨ (link.recv errno).value = some []) ∧
          (link.recv errno).link.input.content = link.input.content ∨
        ∃ parsed consumed, exit = .packet parsed ∧ parsed = consumed.length ∧
          link.input.content = consumed ++ (link.recv errno).link.input.content) := by
  obtain ⟨ranges, exit, checked, result, safe⟩ := checkedRecv_spec valid plain errno
  refine ⟨ranges, exit, checked, result, safe, ?_⟩
  rw [result]
  cases exit with
  | empty => exact .inl ⟨.inr rfl, rfl⟩
  | null => exact .inl ⟨.inl rfl, rfl⟩
  | notReady =>
      refine .inl ⟨?_, valid.makeRoom_spec.2.1⟩
      simp only [Exit.received]
      split
      · exact .inr rfl
      · exact .inl rfl
  | packet parsed =>
      obtain ⟨positive, within, _⟩ := safe.packet parsed rfl
      have size := valid.size_eq
      have split := (link.input.content.take_append_drop parsed.toNat).symm
      have width : (link.input.content.take parsed.toNat).length = parsed := by
        rw [List.length_take]
        omega
      have rest := (valid.decr_spec split).2
      rw [width] at rest
      refine .inr ⟨parsed, link.input.content.take parsed.toNat, rfl, width.symm, ?_⟩
      rw [Exit.received, rest]
      exact split

/-- A content that announces a record of `2^31 - 1` bytes behind a complete one. -/
def boastful : Link :=
  holding (ascii "1" ++ 10 :: (ascii "a" ++ 10 :: (ascii "2147483647" ++ [10]))) 8

theorem recv_safe_boastful :
    ∃ ranges exit, checkedRecv boastful.input = some (ranges, exit) ∧
      boastful.recv .success = exit.received boastful .success ranges ∧
      Safe boastful.input.buf boastful.input.data (boastful.input.data + boastful.input.size) ranges exit ∧
      (((boastful.recv .success).value = none ∨ (boastful.recv .success).value = some []) ∧
          (boastful.recv .success).link.input.content = boastful.input.content ∨
        ∃ parsed consumed, exit = .packet parsed ∧ parsed = consumed.length ∧
          boastful.input.content = consumed ++ (boastful.recv .success).link.input.content) :=
  recv_safe (Buffer.holding_wellFormed (by decide)) (by decide) .success

end Dbss.Net.Link
