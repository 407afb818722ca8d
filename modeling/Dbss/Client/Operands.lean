import Dbss.Client.Commands
import Dbss.Util.Conversion

namespace Dbss

open Dbss.Data Dbss.Util

/-! The commands that send numbers, and what the other side reads in their requests. -/

/-- The commands of `ClientImpl` with a limit, an offset, an increment, a score,
a position or a time to live. -/
inductive NumberCommand where
  | setx (key val : Bytes) (ttl : Int)
  | incr (key : Bytes) (incrby : Int)
  | keys (keyStart keyEnd : Bytes) (limit : UInt64)
  | scan (keyStart keyEnd : Bytes) (limit : UInt64)
  | rscan (keyStart keyEnd : Bytes) (limit : UInt64)
  | hincr (name key : Bytes) (incrby : Int)
  | hkeys (name keyStart keyEnd : Bytes) (limit : UInt64)
  | hscan (name keyStart keyEnd : Bytes) (limit : UInt64)
  | hrscan (name keyStart keyEnd : Bytes) (limit : UInt64)
  | zset (name key : Bytes) (score : Int)
  | zincr (name key : Bytes) (incrby : Int)
  | zrange (name : Bytes) (offset limit : UInt64)
  | zrrange (name : Bytes) (offset limit : UInt64)
  | zkeys (name keyStart : Bytes) (scoreStart scoreEnd : Option Int) (limit : UInt64)
  | zscan (name keyStart : Bytes) (scoreStart scoreEnd : Option Int) (limit : UInt64)
  | zrscan (name keyStart : Bytes) (scoreStart scoreEnd : Option Int) (limit : UInt64)
  | multiZset (name : Bytes) (kss : OrderedMap Bytes Int)
  | qslice (name : Bytes) (begin «end» : Int)

/-- An argument as the caller gives it: bytes, or a number with its C++ type. -/
inductive Operand where
  | bytes (text : Bytes)
  | number (type : IntType) (value : Int)

def Operand.text : Operand → Bytes
  | bytes text => text
  | number _ value => throughBuffer (str value)

/-- A pointer to a score; NULL is sent as the empty text. -/
def Operand.score : Option Int → Operand
  | none => .bytes []
  | some value => .number .int64 value

def Operand.limit (value : UInt64) : Operand :=
  .number .uint64 value.toNat

namespace NumberCommand

def req : NumberCommand → List Bytes
  | setx key val ttl => (ClientImpl.setx key val ttl).req
  | incr key incrby => (ClientImpl.incr key incrby).req
  | keys keyStart keyEnd limit => (ClientImpl.keys keyStart keyEnd limit).req
  | scan keyStart keyEnd limit => (ClientImpl.scan keyStart keyEnd limit).req
  | rscan keyStart keyEnd limit => (ClientImpl.rscan keyStart keyEnd limit).req
  | hincr name key incrby => (ClientImpl.hincr name key incrby).req
  | hkeys name keyStart keyEnd limit => (ClientImpl.hkeys name keyStart keyEnd limit).req
  | hscan name keyStart keyEnd limit => (ClientImpl.hscan name keyStart keyEnd limit).req
  | hrscan name keyStart keyEnd limit => (ClientImpl.hrscan name keyStart keyEnd limit).req
  | zset name key score => (ClientImpl.zset name key score).req
  | zincr name key incrby => (ClientImpl.zincr name key incrby).req
  | zrange name offset limit => (ClientImpl.zrange name offset limit).req
  | zrrange name offset limit => (ClientImpl.zrrange name offset limit).req
  | zkeys name keyStart scoreStart scoreEnd limit =>
      (ClientImpl.zkeys name keyStart scoreStart scoreEnd limit).req
  | zscan name keyStart scoreStart scoreEnd limit =>
      (ClientImpl.zscan name keyStart scoreStart scoreEnd limit).req
  | zrscan name keyStart scoreStart scoreEnd limit =>
      (ClientImpl.zrscan name keyStart scoreStart scoreEnd limit).req
  | multiZset name kss => (ClientImpl.multiZset name kss).req
  | qslice name begin «end» => (ClientImpl.qslice name begin «end»).req

def operands : NumberCommand → List Operand
  | setx key val ttl => [.bytes key, .bytes val, .number .int ttl]
  | incr key incrby => [.bytes key, .number .int64 incrby]
  | keys keyStart keyEnd limit | scan keyStart keyEnd limit | rscan keyStart keyEnd limit =>
      [.bytes keyStart, .bytes keyEnd, .limit limit]
  | hincr name key incrby => [.bytes name, .bytes key, .number .int64 incrby]
  | hkeys name keyStart keyEnd limit | hscan name keyStart keyEnd limit | hrscan name keyStart keyEnd limit =>
      [.bytes name, .bytes keyStart, .bytes keyEnd, .limit limit]
  | zset name key score => [.bytes name, .bytes key, .number .int64 score]
  | zincr name key incrby => [.bytes name, .bytes key, .number .int64 incrby]
  | zrange name offset limit | zrrange name offset limit => [.bytes name, .limit offset, .limit limit]
  | zkeys name keyStart scoreStart scoreEnd limit | zscan name keyStart scoreStart scoreEnd limit
  | zrscan name keyStart scoreStart scoreEnd limit =>
      [.bytes name, .bytes keyStart, .score scoreStart, .score scoreEnd, .limit limit]
  | multiZset name kss => .bytes name :: kss.entries.flatMap fun entry => [.bytes entry.1, .number .int64 entry.2]
  | qslice name begin «end» => [.bytes name, .number .int64 begin, .number .int64 «end»]

def InRange (command : NumberCommand) : Prop :=
  ∀ type value, Operand.number type value ∈ command.operands → type.InRange value

end NumberCommand

/-- The argument as it is printed, before it goes through the buffer. -/
def Operand.printed : Operand → Bytes
  | bytes text => text
  | number _ value => str value

@[simp] theorem Operand.bytes_printed (text : Bytes) : (Operand.bytes text).printed = text := rfl

@[simp] theorem Operand.number_printed (type : IntType) (value : Int) :
    (Operand.number type value).printed = str value := rfl

@[simp] theorem Operand.limit_printed (value : UInt64) : (Operand.limit value).printed = strUInt64 value :=
  str_natCast value.toNat

@[simp] theorem Operand.score_printed (score : Option Int) :
    (Operand.score score).printed = ClientImpl.scoreText score := by
  cases score <;> rfl

theorem NumberCommand.req_printed (command : NumberCommand) :
    command.req.tail = command.operands.map Operand.printed := by
  cases command with
  | multiZset name kss =>
      have pairs (entries : List (Bytes × Int)) :
          flatten (entries.map fun entry => (entry.1, str entry.2)) =
            (entries.flatMap fun entry => [Operand.bytes entry.1, .number .int64 entry.2]).map Operand.printed := by
        simp [flatten, List.flatMap_map, List.map_flatMap]
      exact congrArg (name :: ·) (pairs kss.entries)
  | _ => simp [req, operands, ClientImpl.setx, ClientImpl.incr, ClientImpl.keys, ClientImpl.scan,
      ClientImpl.rscan, ClientImpl.hincr, ClientImpl.hkeys, ClientImpl.hscan, ClientImpl.hrscan, ClientImpl.zset,
      ClientImpl.zincr, ClientImpl.zrange, ClientImpl.zrrange, ClientImpl.zkeys, ClientImpl.zscan, ClientImpl.zrscan,
      ClientImpl.qslice, Command.status, Command.list, Command.int64]

theorem NumberCommand.req_sent {command : NumberCommand} (range : command.InRange) :
    command.req.tail = command.operands.map Operand.text := by
  rw [command.req_printed]
  refine List.map_congr_left fun operand member => ?_
  cases operand with
  | bytes text => rfl
  | number type value => exact (throughBuffer_str (range type value member).length_str).symm

/-- Numbers survive being printed and converted back, also on their way from a
client to a peer. -/
theorem numbers_roundTrip :
    (∀ (type : IntType) (value : Int) (errno : Errno), type.InRange value → type.Recovers value errno) ∧
      ∀ command : NumberCommand, command.InRange →
        command.req.tail = command.operands.map Operand.text ∧
        ∀ type value errno, .number type value ∈ command.operands →
          type.parse (Operand.text (.number type value)) errno = (value, .success) := by
  refine ⟨fun _ _ errno range => range.recovers errno, fun command range => ⟨NumberCommand.req_sent range, ?_⟩⟩
  intro type value errno member
  exact ((range type value member).recovers errno).2.2

def lowestScore : NumberCommand :=
  .zscan (ascii "z") [] (some (-9223372036854775808)) none 18446744073709551615

theorem lowestScore_inRange : lowestScore.InRange := by
  intro type value member
  simp [NumberCommand.operands, lowestScore, Operand.score, Operand.limit] at member
  rcases member with ⟨rfl, rfl⟩ | ⟨rfl, rfl⟩ <;> decide

theorem numbers_roundTrip_lowest :
    IntType.int64.Recovers (-9223372036854775808) .erange ∧
      lowestScore.req.tail = lowestScore.operands.map Operand.text ∧
      IntType.int64.parse (Operand.text (.number .int64 (-9223372036854775808))) .einval =
        (-9223372036854775808, .success) :=
  ⟨numbers_roundTrip.1 .int64 (-9223372036854775808) .erange (by decide),
    (numbers_roundTrip.2 lowestScore lowestScore_inRange).1,
    (numbers_roundTrip.2 lowestScore lowestScore_inRange).2 .int64 (-9223372036854775808) .einval
      (by simp [NumberCommand.operands, lowestScore, Operand.score])⟩

end Dbss
