import Dbss.Net.LinkRedis

namespace Dbss.Net.RedisLink

open Dbss.Data Dbss.Util

/-! ZADD: score, member pairs become member, score pairs. -/

def scoreMembers (pairs : List (Bytes × Bytes)) : List Bytes :=
  pairs.flatMap fun pair => [pair.1, pair.2]

/-- The same pairs as multi_zset takes them. -/
def memberScores (pairs : List (Bytes × Bytes)) : List Bytes :=
  pairs.flatMap fun pair => [pair.2, pair.1]

variable {link : RedisLink} {word name : Bytes} {arguments rest : List Bytes}

/-- Any arguments are pairs, and perhaps one more that has no member. -/
theorem exists_scoreMembers (arguments : List Bytes) :
    ∃ pairs rest, arguments = scoreMembers pairs ++ rest ∧ rest.length ≤ 1 := by
  induction arguments using zaddPairs.induct with
  | case1 score member more ih =>
      obtain ⟨pairs, rest, same, short⟩ := ih
      exact ⟨(score, member) :: pairs, rest, by rw [same]; rfl, short⟩
  | case2 arguments few =>
      refine ⟨[], arguments, rfl, ?_⟩
      match arguments with
      | [] => exact Nat.zero_le 1
      | [_] => exact le_refl 1
      | score :: member :: more => exact absurd rfl (few score member more)

theorem zaddPairs_scoreMembers (pairs : List (Bytes × Bytes)) (short : rest.length ≤ 1) :
    zaddPairs (scoreMembers pairs ++ rest) = memberScores pairs := by
  induction pairs with
  | nil =>
      match rest with
      | [] => rfl
      | [_] => rfl
  | cons pair pairs ih =>
      calc zaddPairs (scoreMembers (pair :: pairs) ++ rest)
          = pair.2 :: pair.1 :: zaddPairs (scoreMembers pairs ++ rest) := rfl
        _ = memberScores (pair :: pairs) := by rw [ih]; rfl

theorem scoreMembers_length (pairs : List (Bytes × Bytes)) : (scoreMembers pairs).length = 2 * pairs.length := by
  induction pairs with
  | nil => rfl
  | cons pair pairs ih =>
      rw [scoreMembers, List.flatMap_cons, List.length_append, ← scoreMembers, ih, List.length_cons]
      simp only [List.length_cons, List.length_nil]
      omega

/-- A multi_zset request that the server can carry out: a name, and one or more
complete member, score pairs. -/
def IsMultiZset (request : List Bytes) : Prop :=
  ∃ name pairs, pairs ≠ [] ∧ request = ascii "multi_zset" :: name :: memberScores pairs

/-- All pairs are sent on, or nothing that the server would store. -/
def ForwardsPairs (request : List Bytes) (name : Bytes) (arguments : List Bytes) : Prop :=
  (arguments.length % 2 = 0 → ∃ pairs, arguments = scoreMembers pairs ∧
    request = ascii "multi_zset" :: name :: memberScores pairs) ∧
  (arguments.length % 2 = 1 → ¬ IsMultiZset request)

theorem convertReq_zadd (errno : Errno) (cmd : link.cmd = ascii "zadd")
    (request : link.recvBytes = word :: name :: arguments) :
    (convertReq link errno).1.recvString = ascii "multi_zset" :: name :: zaddPairs arguments := by
  have long : (word :: name :: arguments).length ≥ 2 := by simp
  have converted : convertZadd (word :: name :: arguments) = name :: zaddPairs arguments := if_pos long
  rw [← converted, convertReq, cmd, request]
  rfl

/-- A dangling score behind complete pairs is dropped, and the rest is stored. -/
theorem forwardsPairs_iff (errno : Errno) (cmd : link.cmd = ascii "zadd")
    (request : link.recvBytes = word :: name :: arguments) :
    ForwardsPairs (convertReq link errno).1.recvString name arguments ↔
      arguments.length % 2 = 0 ∨ arguments.length = 1 := by
  rw [convertReq_zadd errno cmd request]
  obtain ⟨pairs, rest, rfl, short⟩ := exists_scoreMembers arguments
  rw [ForwardsPairs, zaddPairs_scoreMembers pairs short, List.length_append, scoreMembers_length]
  constructor
  · rintro ⟨_, refused⟩
    by_contra odd
    refine refused (by omega) ⟨name, pairs, ?_, rfl⟩
    rintro rfl
    simp only [List.length_nil] at odd
    omega
  · rintro (even | single)
    · have nothing : rest = [] := List.length_eq_zero_iff.mp (by omega)
      exact ⟨fun _ => ⟨pairs, by rw [nothing, List.append_nil], rfl⟩, fun odd => by omega⟩
    · have none : pairs = [] := List.length_eq_zero_iff.mp (by omega)
      refine ⟨fun even => by omega, fun _ => ?_⟩
      rintro ⟨other, found, nonempty, same⟩
      have stored : memberScores found = [] := by
        rw [none] at same
        exact (List.cons.inj (List.cons.inj same).2).2.symm
      cases found with
      | nil => exact nonempty rfl
      | cons pair found => simp [memberScores] at stored

def zaddRequest (arguments : List Bytes) : RedisLink :=
  { new with cmd := ascii "zadd", recvBytes := ascii "zadd" :: ascii "z" :: arguments }

theorem forwardsPairs_iff_two :
    ForwardsPairs (convertReq (zaddRequest [ascii "1", ascii "a", ascii "2", ascii "b"]) .success).1.recvString
      (ascii "z") [ascii "1", ascii "a", ascii "2", ascii "b"] :=
  (forwardsPairs_iff .success rfl rfl).mpr (.inl rfl)

/-- Of `1 a 2` the pair is stored, and the 2 is not missed. -/
theorem zadd_dangling :
    ¬ ForwardsPairs (convertReq (zaddRequest [ascii "1", ascii "a", ascii "2"]) .success).1.recvString (ascii "z")
      [ascii "1", ascii "a", ascii "2"] := by
  rintro ⟨_, refused⟩
  exact refused (by decide) ⟨ascii "z", [(ascii "1", ascii "a")], by decide, by decide⟩

end Dbss.Net.RedisLink
