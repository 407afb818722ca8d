import Dbss.Net.LinkRedis
import Dbss.Util.Numeral

namespace Dbss.Net.RedisLink

open Dbss.Data Dbss.Util

/-! ZRANGE and ZREVRANGE: inclusive ranks become an offset and a limit. -/

inductive RankCommand where
  | zrange
  | zrevrange

namespace RankCommand

def redisCmd : RankCommand → Bytes
  | zrange => ascii "zrange"
  | zrevrange => ascii "zrevrange"

def ssdbCmd : RankCommand → Bytes
  | zrange => ascii "zrange"
  | zrevrange => ascii "zrrange"

end RankCommand

variable {link : RedisLink} {word name startText stopText : Bytes} {start stop : Int} {errno : Errno}

def rankLimit (start stop : Int) : Int :=
  if stop = -1 then -1 else wrap64 (wrap64 (stop - start) + 1)

theorem convertZrange_ranks (first : Numeral startText start) (firstRange : IsInt64 start)
    (last : Numeral stopText stop) (lastRange : IsInt64 stop) :
    (convertZrange [word, name, startText, stopText] errno).1 =
      if (0 ≤ start ∧ 0 ≤ stop) ∨ stop = -1 then [name, startText, str (rankLimit start stop)]
      else [] := by
  simp [convertZrange, arg, strToInt64_numeral first firstRange, strToInt64_numeral last lastRange,
    rankLimit]

theorem convertReq_ranks (command : RankCommand) (cmd : link.cmd = command.redisCmd)
    (request : link.recvBytes = [word, name, startText, stopText])
    (first : Numeral startText start) (firstRange : IsInt64 start)
    (last : Numeral stopText stop) (lastRange : IsInt64 stop) :
    (convertReq link errno).1.recvString =
      command.ssdbCmd ::
        if (0 ≤ start ∧ 0 ≤ stop) ∨ stop = -1 then [name, startText, str (rankLimit start stop)]
        else [] := by
  rw [← convertZrange_ranks first firstRange last lastRange, convertReq, cmd, request]
  cases command <;> rfl

theorem rankLimit_exact (firstRange : IsInt64 start) (lastRange : IsInt64 stop) (lower : 0 ≤ start)
    (upper : 0 ≤ stop) :
    rankLimit start stop =
      if stop - start = 9223372036854775807 then -9223372036854775808 else stop - start + 1 := by
  obtain ⟨_, _⟩ := firstRange
  obtain ⟨_, _⟩ := lastRange
  rw [rankLimit, if_neg (by omega)]
  unfold wrap64
  split <;> omega

theorem str_head_minus {value : Int} : (str value).head? = some 45 ↔ value < 0 := by
  constructor
  · intro minus
    by_contra nonnegative
    rw [str_nonnegative (not_lt.mp nonnegative)] at minus
    exact minus_not_mem_decimal _ (List.mem_of_mem_head? minus)
  · intro negative
    rw [str_negative negative]
    rfl

/-- The converted request asks for as many ranks as `start` to `stop` has, and
for all of them only where `stop` is -1. -/
def SelectsRanks (link : RedisLink) (errno : Errno) (command : RankCommand)
    (name startText : Bytes) (start stop : Int) : Prop :=
  (0 ≤ start → 0 ≤ stop → (convertReq link errno).1.recvString =
    [command.ssdbCmd, name, startText, str (max 0 (stop - start + 1))]) ∧
  ∀ limit, (convertReq link errno).1.recvString[3]? = some limit → limit.head? = some 45 → stop = -1

/-- The limit is right exactly where the range does not end more than one rank
before it starts and has no more ranks than an `int64_t` can count. -/
theorem selectsRanks_iff (command : RankCommand) (cmd : link.cmd = command.redisCmd)
    (request : link.recvBytes = [word, name, startText, stopText])
    (first : Numeral startText start) (firstRange : IsInt64 start)
    (last : Numeral stopText stop) (lastRange : IsInt64 stop) :
    SelectsRanks link errno command name startText start stop ↔
      (0 ≤ start → 0 ≤ stop → start ≤ stop + 1 ∧ stop - start ≠ 9223372036854775807) := by
  unfold SelectsRanks
  rw [convertReq_ranks command cmd request first firstRange last lastRange]
  by_cases ranks : 0 ≤ start ∧ 0 ≤ stop
  · obtain ⟨lower, upper⟩ := ranks
    rw [if_pos (.inl ⟨lower, upper⟩), rankLimit_exact firstRange lastRange lower upper]
    simp only [lower, upper, true_implies, List.cons.injEq, true_and, and_true]
    rw [str_injective.eq_iff]
    constructor
    · rintro ⟨limit, _⟩
      split at limit <;> omega
    · rintro ⟨order, counted⟩
      rw [if_neg counted]
      refine ⟨by omega, fun limit sent minus => ?_⟩
      cases sent
      have := str_head_minus.mp minus
      omega
  · refine iff_of_true ⟨fun lower upper => absurd ⟨lower, upper⟩ ranks, ?_⟩
      fun lower upper => absurd ⟨lower, upper⟩ ranks
    intro limit sent _
    by_contra other
    rw [if_neg (by tauto)] at sent
    simp at sent

def zrangeRequest (startText stopText : Bytes) : RedisLink :=
  { new with cmd := ascii "zrange", recvBytes := [ascii "zrange", ascii "z", startText, stopText] }

theorem selectsRanks_iff_ten :
    SelectsRanks (zrangeRequest (ascii "0") (ascii "9")) .success .zrange (ascii "z") (ascii "0") 0 9 :=
  (selectsRanks_iff .zrange rfl rfl
    (.nonnegative (by decide) (List.forall_mem_singleton.mpr rfl) : Numeral [48] (numeral [48])) (by decide)
    (.nonnegative (by decide) (List.forall_mem_singleton.mpr rfl) : Numeral [57] (numeral [57])) (by decide)).mpr
    (by decide)

/-- The empty range from 5 to 2 asks for -2 ranks, which is no limit at all. -/
theorem zrange_reversed :
    ¬ SelectsRanks (zrangeRequest (ascii "5") (ascii "2")) .success .zrange (ascii "z") (ascii "5") 5 2 := by
  rintro ⟨_, limited⟩
  exact absurd (limited (ascii "-2") (by decide) (by decide)) (by decide)

end Dbss.Net.RedisLink
