import Dbss.Client.Commands
import Dbss.Util.Numeral

namespace Dbss

open Dbss.Data Dbss.Util

/-! The commands that answer with an integer, all by way of `_read_int64`. -/

inductive Int64Command where
  | incr (key : Bytes) (incrby : Int)
  | hincr (name key : Bytes) (incrby : Int)
  | hsize (name : Bytes)
  | hclear (name : Bytes)
  | zget (name key : Bytes)
  | zincr (name key : Bytes) (incrby : Int)
  | zsize (name : Bytes)
  | zclear (name : Bytes)
  | zrank (name key : Bytes)
  | zrrank (name key : Bytes)

namespace Int64Command

def command : Int64Command → Command Int64Reply
  | incr key incrby => ClientImpl.incr key incrby
  | hincr name key incrby => ClientImpl.hincr name key incrby
  | hsize name => ClientImpl.hsize name
  | hclear name => ClientImpl.hclear name
  | zget name key => ClientImpl.zget name key
  | zincr name key incrby => ClientImpl.zincr name key incrby
  | zsize name => ClientImpl.zsize name
  | zclear name => ClientImpl.zclear name
  | zrank name key => ClientImpl.zrank name key
  | zrrank name key => ClientImpl.zrrank name key

theorem read_eq (op : Int64Command) (errno : Errno) (resp : Option (List Bytes)) :
    op.command.read errno resp = readInt64 resp errno := by
  cases op <;> rfl

end Int64Command

theorem readInt64_value (text : Bytes) (more : List Bytes) (errno : Errno) :
    readInt64 (some (ascii "ok" :: text :: more)) errno =
      ⟨⟨ascii "ok"⟩, some (strToInt64 text errno).1, (strToInt64 text errno).2⟩ := by
  simp [readInt64, Status.ofResp, Status.ok]

/-- Without a value to read the call leaves `*ret` alone and is not ok. -/
theorem readInt64_none {resp : Option (List Bytes)} (errno : Errno)
    (nothing : ∀ text more, resp ≠ some (ascii "ok" :: text :: more)) :
    (readInt64 resp errno).status.ok = false ∧ (readInt64 resp errno).ret = none := by
  by_cases succeeded : Succeeded resp
  · obtain ⟨rest, rfl⟩ := succeeded
    cases rest with
    | nil => exact ⟨rfl, rfl⟩
    | cons text more => exact absurd rfl (nothing text more)
  · have failed := mt ofResp_ok.mp succeeded
    simp [readInt64, failed]

/-- `*ret` after a call that found `prior` there. -/
def Int64Reply.stored (reply : Int64Reply) (prior : Int) : Int :=
  reply.ret.getD prior

/-- An ok status comes with the integer the server sent; any other leaves `*ret` as it was. -/
def Int64Command.AnswersSent (op : Int64Command) (resp : Option (List Bytes)) (errno : Errno)
    (prior : Int) : Prop :=
  let reply := op.command.read errno resp
  (reply.status.ok = true →
    ∃ text value, (resp.getD [])[1]? = some text ∧ Numeral text value ∧ IsInt64 value ∧
      reply.stored prior = value) ∧
  (reply.status.ok = false → reply.stored prior = prior)

/-- `_read_int64` does not ask whether `str_to_int64` failed, so it depends on
the server's text whether an ok reply is right: white space, a `+`, trailing
bytes, no digits at all and numbers beyond 64 bits all pass for integers. -/
theorem Int64Command.answersSent_iff (op : Int64Command) (resp : Option (List Bytes)) (errno : Errno)
    (prior : Int) :
    op.AnswersSent resp errno prior ↔
      ∀ text more, resp = some (ascii "ok" :: text :: more) →
        ∃ value, Numeral text value ∧ IsInt64 value := by
  unfold AnswersSent
  rw [op.read_eq]
  by_cases carries : ∃ text more, resp = some (ascii "ok" :: text :: more)
  · obtain ⟨text, more, rfl⟩ := carries
    simp only [readInt64_value, Int64Reply.stored, Option.getD_some]
    constructor
    · rintro ⟨sent, _⟩ text' more' same
      obtain ⟨found, value, here, number, range, _⟩ := sent rfl
      cases same
      cases here
      exact ⟨value, number, range⟩
    · intro sent
      obtain ⟨value, number, range⟩ := sent text more rfl
      rw [strToInt64_numeral number range]
      exact ⟨fun _ => ⟨text, value, rfl, number, range, rfl⟩, fun failed => by simp [Status.ok] at failed⟩
  · have nothing : ∀ text more, resp ≠ some (ascii "ok" :: text :: more) :=
      fun text more same => carries ⟨text, more, same⟩
    obtain ⟨failed, unread⟩ := readInt64_none errno nothing
    simp only [failed, Int64Reply.stored, unread]
    exact iff_of_true ⟨by simp, fun _ => rfl⟩ fun text more same => absurd same (nothing text more)

/-- The text `1x` passes for a 1. -/
theorem incr_trailing_text :
    ¬ (Int64Command.incr (ascii "key") 1).AnswersSent (some [ascii "ok", ascii "1x"]) .success 0 := by
  rintro ⟨sent, _⟩
  obtain ⟨text, value, here, number, _⟩ := sent (by decide)
  cases here
  exact absurd (number.tail_plain 120 (by decide)) (by decide)

end Dbss
