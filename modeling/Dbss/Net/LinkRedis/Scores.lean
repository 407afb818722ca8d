import Dbss.Net.LinkRedis.State
import Dbss.Util.Conversion

namespace Dbss.Net.RedisLink

open Dbss.Data Dbss.Util

/-! ZRANGEBYSCORE and ZREVRANGEBYSCORE: the scores that the converted request selects. -/

inductive ScoreCommand where
  | zrangebyscore
  | zrevrangebyscore
deriving DecidableEq, Repr

namespace ScoreCommand

def redisCmd : ScoreCommand → Bytes
  | zrangebyscore => ascii "zrangebyscore"
  | zrevrangebyscore => ascii "zrevrangebyscore"

def ssdbCmd : ScoreCommand → Bytes
  | zrangebyscore => ascii "zscan"
  | zrevrangebyscore => ascii "zrscan"

/-- How far an exclusive first bound is moved. -/
def shift : ScoreCommand → Int
  | zrangebyscore => 1
  | zrevrangebyscore => -1

end ScoreCommand

/-- The three words that the clauses leave at the end of the request. -/
def Clauses.tail (clauses : Clauses) : List Bytes :=
  [if clauses.offset = [] then ascii "0" else clauses.offset,
    if clauses.count = [] then ascii "2000000000" else clauses.count,
    clauses.withscores]

variable {link : RedisLink} {word name firstText secondText text : Bytes} {more : List Bytes}

theorem convertZrangebyscore_words (strategy : Strategy) (errno : Errno) (firstNonempty : firstText ≠ [])
    (secondNonempty : secondText ≠ []) {shift : Int}
    (moved : (if strategy = .zrangebyscore then 1 else -1) = shift) :
    (convertZrangebyscore strategy (word :: name :: firstText :: secondText :: more) errno).1 =
      [name, [], (scoreBound firstText shift .success).1, (scoreBound secondText (-shift) .success).1] ++
        (more.foldl Clauses.read ⟨[], [], [], false⟩).tail := by
  have long : (word :: name :: firstText :: secondText :: more).length ≥ 4 := by simp
  have given : ¬ (firstText = [] ∨ secondText = []) := fun missing => missing.elim firstNonempty secondNonempty
  have first := scoreBound_errno firstText shift errno
  have second := scoreBound_errno secondText (-shift) (scoreBound firstText shift errno).2
  simp only [convertZrangebyscore, if_pos long, moved, arg, List.getD_cons_succ, List.getD_cons_zero, if_neg given,
    first, second]
  rfl

theorem convertReq_scores (command : ScoreCommand) (errno : Errno) (cmd : link.cmd = command.redisCmd)
    (request : link.recvBytes = word :: name :: firstText :: secondText :: more)
    (firstNonempty : firstText ≠ []) (secondNonempty : secondText ≠ []) :
    (convertReq link errno).1.recvString =
      command.ssdbCmd :: name :: [] :: (scoreBound firstText command.shift .success).1 ::
        (scoreBound secondText (-command.shift) .success).1 ::
          (more.foldl Clauses.read ⟨[], [], [], false⟩).tail := by
  rw [convertReq, cmd, request]
  cases command with
  | zrangebyscore =>
      exact congrArg (ascii "zscan" :: ·)
        (convertZrangebyscore_words .zrangebyscore errno firstNonempty secondNonempty rfl)
  | zrevrangebyscore =>
      exact congrArg (ascii "zrscan" :: ·)
        (convertZrangebyscore_words .zrevrangebyscore errno firstNonempty secondNonempty rfl)

/-! ### Bounds -/

inductive Bound where
  | closed (n : Int)
  | exclusive (n : Int)
  | minusInf
  | plusInf
deriving DecidableEq, Repr

/-- How a client writes a bound. -/
inductive Bound.Written : Bound → Bytes → Prop where
  | closed {n text} (number : Numeral text n) (range : IsInt64 n) : Written (.closed n) text
  | exclusive {n text} (number : Numeral text n) (range : IsInt64 n) : Written (.exclusive n) (40 :: text)
  | minusInf : Written .minusInf (ascii "-inf")
  | plusInf : Written .plusInf (ascii "+inf")

namespace Bound

/-- The scores a bound admits as a minimum. -/
def Above (score : Int) : Bound → Prop
  | closed n => n ≤ score
  | exclusive n => n < score
  | minusInf => True
  | plusInf => False

def Below (score : Int) : Bound → Prop
  | closed n => score ≤ n
  | exclusive n => score < n
  | minusInf => False
  | plusInf => True

end Bound

/-- The interval of the Redis command: ZREVRANGEBYSCORE has its maximum first. -/
def ScoreCommand.RedisSelects (command : ScoreCommand) (first second : Bound) (score : Int) : Prop :=
  match command with
  | zrangebyscore => first.Above score ∧ second.Below score
  | zrevrangebyscore => first.Below score ∧ second.Above score

/-- A bound of zscan or zrscan; the empty text is none. -/
def scoreLimit (text : Bytes) : Option Int :=
  if text = [] then none else some (strToInt64 text .success).1

/-- zscan goes up from `score_start` to `score_end`, zrscan down. -/
def ScoreCommand.SsdbSelects (command : ScoreCommand) (scoreStart scoreEnd : Bytes) (score : Int) : Prop :=
  match command with
  | zrangebyscore =>
      (∀ limit ∈ scoreLimit scoreStart, limit ≤ score) ∧ ∀ limit ∈ scoreLimit scoreEnd, score ≤ limit
  | zrevrangebyscore =>
      (∀ limit ∈ scoreLimit scoreStart, score ≤ limit) ∧ ∀ limit ∈ scoreLimit scoreEnd, limit ≤ score

/-- The request selects the scores that the Redis command means. -/
def SelectsScores (link : RedisLink) (errno : Errno) (command : ScoreCommand) (first second : Bound) : Prop :=
  ∃ scoreStart scoreEnd,
    (convertReq link errno).1.recvString[3]? = some scoreStart ∧
    (convertReq link errno).1.recvString[4]? = some scoreEnd ∧
    ∀ score, IsInt64 score →
      (command.SsdbSelects scoreStart scoreEnd score ↔ command.RedisSelects first second score)

/-! ### What is sent for a bound -/

theorem numeral_bound {n : Int} (number : Numeral text n) :
    text ≠ [] ∧ text ≠ ascii "-inf" ∧ text ≠ ascii "+inf" ∧ text.head? ≠ some 40 := by
  have infinite {sign : UInt8} : text ≠ sign :: ascii "inf" := by
    rintro rfl
    exact absurd (number.tail_plain 105 List.mem_cons_self) (by decide)
  refine ⟨?_, infinite, infinite, ?_⟩
  · cases number with
    | nonnegative nonempty _ => exact nonempty
    | negative => exact List.cons_ne_nil _ _
  · intro opened
    have member := List.mem_of_mem_head? opened
    cases number with
    | nonnegative _ plain => exact absurd (plain 40 member) (by decide)
    | negative => cases opened

theorem scoreLimit_str {value : Int} (range : IsInt64 value) : scoreLimit (str value) = some value := by
  have nonempty : str value ≠ [] := by
    unfold str
    split
    · exact List.cons_ne_nil _ _
    · exact decimal_ne_nil _
  have read : strToInt64 (str value) .success = (value, .success) :=
    IntType.InRange.parse_str (show IntType.int64.InRange value from range) .success
  rw [scoreLimit, if_neg nonempty, read]

namespace Bound

/-- The limit that is sent for a bound, moved by `shift` if it is exclusive. -/
def sent (shift : Int) : Bound → Option Int
  | closed n => some n
  | exclusive n => some (wrap32 (n + shift))
  | minusInf | plusInf => none

theorem Written.nonempty {bound : Bound} (written : bound.Written text) : text ≠ [] := by
  cases written with
  | closed number _ => exact (numeral_bound number).1
  | exclusive | minusInf | plusInf => exact List.cons_ne_nil _ _

theorem Written.scoreLimit {bound : Bound} (written : bound.Written text) (shift : Int) :
    scoreLimit (scoreBound text shift .success).1 = bound.sent shift := by
  cases written with
  | @closed n text number range =>
      obtain ⟨nonempty, minus, plus, opened⟩ := numeral_bound number
      have kept : scoreBound text shift .success = (text, .success) := by
        rw [scoreBound, if_neg (not_or.mpr ⟨minus, plus⟩), if_neg opened]
      rw [kept, RedisLink.scoreLimit, if_neg nonempty, strToInt64_numeral number range]
      rfl
  | @exclusive n text number range =>
      have finite : ¬ (40 :: text = ascii "-inf" ∨ 40 :: text = ascii "+inf") := by
        rintro (same | same) <;> exact absurd (List.cons.inj same).1 (by decide)
      have narrowed : (strToInt text .success).1 = wrap32 n :=
        congrArg (fun read : Int × Errno => wrap32 read.1) (strToInt64_numeral number range .success)
      have moved : wrap32 (wrap32 n + shift) = wrap32 (n + shift) := by
        unfold wrap32
        omega
      have small := wrap32_range (n + shift)
      rw [scoreBound, if_neg finite, if_pos (by rfl)]
      simp only [List.tail_cons, narrowed, moved]
      exact scoreLimit_str ⟨by omega, by omega⟩
  | minusInf | plusInf => rfl

/-- The least score that a bound admits as a minimum, and one more than the highest if it admits none. -/
def lowEdge : Bound → Int
  | closed n => n
  | exclusive n => n + 1
  | minusInf => -9223372036854775808
  | plusInf => 9223372036854775808

def highEdge : Bound → Int
  | closed n => n
  | exclusive n => n - 1
  | minusInf => -9223372036854775809
  | plusInf => 9223372036854775807

/-- The same with an exclusive bound reduced to 32 bits, and no bound for an infinity. -/
def lowReduced : Bound → Int
  | closed n => n
  | exclusive n => wrap32 (n + 1)
  | minusInf | plusInf => -9223372036854775808

def highReduced : Bound → Int
  | closed n => n
  | exclusive n => wrap32 (n - 1)
  | minusInf | plusInf => 9223372036854775807

variable {bound : Bound} {score : Int}

theorem above_iff (range : IsInt64 score) : bound.Above score ↔ bound.lowEdge ≤ score := by
  obtain ⟨_, _⟩ := range
  cases bound <;> simp only [Above, lowEdge, true_iff, false_iff] <;> omega

theorem below_iff (range : IsInt64 score) : bound.Below score ↔ score ≤ bound.highEdge := by
  obtain ⟨_, _⟩ := range
  cases bound <;> simp only [Below, highEdge, true_iff, false_iff] <;> omega

theorem sent_low (range : IsInt64 score) :
    (∀ limit ∈ bound.sent 1, limit ≤ score) ↔ bound.lowReduced ≤ score := by
  obtain ⟨_, _⟩ := range
  cases bound <;> simp [sent, lowReduced] <;> omega

theorem sent_high (range : IsInt64 score) :
    (∀ limit ∈ bound.sent (-1), score ≤ limit) ↔ score ≤ bound.highReduced := by
  obtain ⟨_, _⟩ := range
  cases bound <;> simp [sent, highReduced, Int.sub_eq_add_neg] <;> omega

/-- A minimum that is sent as it is meant. -/
def FitsLow : Bound → Prop
  | closed _ | minusInf => True
  | exclusive n => -2147483648 ≤ n + 1 ∧ n + 1 ≤ 2147483647
  | plusInf => False

def FitsHigh : Bound → Prop
  | closed _ | plusInf => True
  | exclusive n => -2147483648 ≤ n - 1 ∧ n - 1 ≤ 2147483647
  | minusInf => False

instance decidableFitsLow : (bound : Bound) → Decidable bound.FitsLow
  | closed _ | minusInf => .isTrue trivial
  | exclusive _ => inferInstanceAs (Decidable (_ ∧ _))
  | plusInf => .isFalse id

instance decidableFitsHigh : (bound : Bound) → Decidable bound.FitsHigh
  | closed _ | plusInf => .isTrue trivial
  | exclusive _ => inferInstanceAs (Decidable (_ ∧ _))
  | minusInf => .isFalse id

theorem fitsLow_iff : bound.FitsLow ↔ bound.lowEdge = bound.lowReduced := by
  cases bound with
  | closed | minusInf => exact iff_of_true trivial rfl
  | exclusive n =>
      simp only [FitsLow, lowEdge, lowReduced, wrap32]
      omega
  | plusInf => exact iff_of_false id (by decide)

theorem fitsHigh_iff : bound.FitsHigh ↔ bound.highEdge = bound.highReduced := by
  cases bound with
  | closed | plusInf => exact iff_of_true trivial rfl
  | exclusive n =>
      simp only [FitsHigh, highEdge, highReduced, wrap32]
      omega
  | minusInf => exact iff_of_false id (by decide)

/-- The edges lie in the range of `int64_t`, or one beyond it. -/
theorem Written.edges (written : bound.Written text) :
    (-9223372036854775808 ≤ bound.lowEdge ∧ bound.lowEdge ≤ 9223372036854775808) ∧
      (-9223372036854775809 ≤ bound.highEdge ∧ bound.highEdge ≤ 9223372036854775807) ∧
      IsInt64 bound.lowReduced ∧ IsInt64 bound.highReduced := by
  cases written with
  | closed _ range | exclusive _ range =>
      obtain ⟨_, _⟩ := range
      simp only [lowEdge, highEdge, lowReduced, highReduced, IsInt64, wrap32]
      omega
  | minusInf | plusInf => decide

end Bound

/-- Two intervals of 64-bit integers are the same if their ends are, or if both are empty. -/
theorem sameScores_iff {low high low' high' : Int} (lower : -9223372036854775808 ≤ low)
    (upper : high ≤ 9223372036854775807) (lowRange : IsInt64 low') (highRange : IsInt64 high') :
    (∀ score, IsInt64 score → (low' ≤ score ∧ score ≤ high' ↔ low ≤ score ∧ score ≤ high)) ↔
      (low = low' ∧ high = high') ∨ (high < low ∧ high' < low') := by
  obtain ⟨_, _⟩ := id lowRange
  obtain ⟨_, _⟩ := id highRange
  constructor
  · intro same
    have atLow' := same low' lowRange
    have atHigh' := same high' highRange
    by_cases empty : high < low
    · right
      omega
    · have atLow := same low ⟨lower, by omega⟩
      have atHigh := same high ⟨by omega, upper⟩
      left
      omega
  · rintro (⟨rfl, rfl⟩ | empty) score _
    · exact Iff.rfl
    · omega

namespace ScoreCommand

def minimum (command : ScoreCommand) (first second : Bound) : Bound :=
  match command with
  | zrangebyscore => first
  | zrevrangebyscore => second

def maximum (command : ScoreCommand) (first second : Bound) : Bound :=
  match command with
  | zrangebyscore => second
  | zrevrangebyscore => first

/-- The bounds are sent as they are meant, or no score is meant and none is selected. -/
def KeepsScores (command : ScoreCommand) (first second : Bound) : Prop :=
  let low := command.minimum first second
  let high := command.maximum first second
  (low.FitsLow ∧ high.FitsHigh) ∨ (high.highEdge < low.lowEdge ∧ high.highReduced < low.lowReduced)

instance decidableKeepsScores (command : ScoreCommand) (first second : Bound) :
    Decidable (command.KeepsScores first second) :=
  inferInstanceAs (Decidable (_ ∨ _))

variable {command : ScoreCommand} {first second : Bound} {score : Int}

theorem redisSelects_iff (range : IsInt64 score) :
    command.RedisSelects first second score ↔
      (command.minimum first second).lowEdge ≤ score ∧ score ≤ (command.maximum first second).highEdge := by
  cases command with
  | zrangebyscore => exact and_congr (Bound.above_iff range) (Bound.below_iff range)
  | zrevrangebyscore => exact and_comm.trans (and_congr (Bound.above_iff range) (Bound.below_iff range))

theorem ssdbSelects_iff (firstWritten : first.Written firstText) (secondWritten : second.Written secondText)
    (range : IsInt64 score) :
    command.SsdbSelects (scoreBound firstText command.shift .success).1
        (scoreBound secondText (-command.shift) .success).1 score ↔
      (command.minimum first second).lowReduced ≤ score ∧ score ≤ (command.maximum first second).highReduced := by
  simp only [SsdbSelects, firstWritten.scoreLimit, secondWritten.scoreLimit]
  cases command with
  | zrangebyscore => exact and_congr (Bound.sent_low range) (Bound.sent_high range)
  | zrevrangebyscore => exact and_comm.trans (and_congr (Bound.sent_low range) (Bound.sent_high range))

end ScoreCommand

theorem selectsScores_reduced (command : ScoreCommand) (errno : Errno) {first second : Bound}
    (cmd : link.cmd = command.redisCmd) (request : link.recvBytes = word :: name :: firstText :: secondText :: more)
    (firstWritten : first.Written firstText) (secondWritten : second.Written secondText) :
    SelectsScores link errno command first second ↔ ∀ score, IsInt64 score →
      ((command.minimum first second).lowReduced ≤ score ∧ score ≤ (command.maximum first second).highReduced ↔
        (command.minimum first second).lowEdge ≤ score ∧ score ≤ (command.maximum first second).highEdge) := by
  have sent := convertReq_scores command errno cmd request firstWritten.nonempty secondWritten.nonempty
  rw [SelectsScores, sent]
  simp only [List.getElem?_cons_succ, List.getElem?_cons_zero, Option.some.injEq, exists_and_left, exists_eq_left']
  refine forall_congr' fun score => forall_congr' fun range => ?_
  rw [ScoreCommand.ssdbSelects_iff firstWritten secondWritten range, ScoreCommand.redisSelects_iff range]

/-- The range is kept unless an exclusive bound does not fit an `int` or an
infinity stands at the wrong end. -/
theorem selectsScores_iff (command : ScoreCommand) (errno : Errno) {first second : Bound}
    (cmd : link.cmd = command.redisCmd) (request : link.recvBytes = word :: name :: firstText :: secondText :: more)
    (firstWritten : first.Written firstText) (secondWritten : second.Written secondText) :
    SelectsScores link errno command first second ↔ command.KeepsScores first second := by
  have firstEdges := firstWritten.edges
  have secondEdges := secondWritten.edges
  rw [selectsScores_reduced command errno cmd request firstWritten secondWritten, ScoreCommand.KeepsScores,
    Bound.fitsLow_iff, Bound.fitsHigh_iff]
  cases command with
  | zrangebyscore =>
      exact sameScores_iff firstEdges.1.1 secondEdges.2.1.2 firstEdges.2.2.1 secondEdges.2.2.2
  | zrevrangebyscore =>
      exact sameScores_iff secondEdges.1.1 firstEdges.2.1.2 secondEdges.2.2.1 firstEdges.2.2.2

def zrangebyscoreRequest (firstText secondText : Bytes) : RedisLink :=
  { new with
    cmd := ascii "zrangebyscore"
    recvBytes := [ascii "zrangebyscore", ascii "z", firstText, secondText] }

theorem exclusive_written {number : Nat} (small : number ≤ 9223372036854775807) :
    (Bound.exclusive number).Written (40 :: decimal number) := by
  have spelled := Numeral.nonnegative (decimal_ne_nil number) fun _ => isDigit_of_mem_decimal
  rw [numeral_decimal] at spelled
  exact .exclusive spelled ⟨by omega, by omega⟩

theorem selectsScores_iff_five :
    SelectsScores (zrangebyscoreRequest (40 :: decimal 5) (ascii "+inf")) .success .zrangebyscore
        (.exclusive 5) .plusInf :=
  (selectsScores_iff .zrangebyscore .success rfl rfl (exclusive_written (by decide)) .plusInf).mpr (by decide)

/-- Above `(3000000000` the request asks for the scores from -1294967295 on. -/
theorem zrangebyscore_narrowed :
    ¬ SelectsScores (zrangebyscoreRequest (40 :: decimal 3000000000) (ascii "+inf")) .success .zrangebyscore
      (.exclusive 3000000000) .plusInf := by
  have written : (Bound.exclusive 3000000000).Written (40 :: decimal 3000000000) := exclusive_written (by decide)
  rw [selectsScores_reduced .zrangebyscore .success rfl rfl written .plusInf]
  intro same
  exact absurd ((same 0 (by decide)).mp (by decide)) (by decide)

end Dbss.Net.RedisLink
