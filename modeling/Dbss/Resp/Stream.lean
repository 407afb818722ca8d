import Dbss.Resp.Format

namespace Dbss.Resp

open Dbss.Data Dbss.Util

/-! A stream of Redis values is read in one way only. -/

variable {mark other : UInt8} {value text rest remains : Bytes} {values others texts : List Bytes}

theorem clean_line_unique (left : Clean value) (right : Clean text)
    (same : value ++ (crlf ++ rest) = text ++ (crlf ++ remains)) : value = text ∧ rest = remains := by
  have plain : ∀ line : Bytes, Clean line → ∀ byte ∈ line, decide (byte ≠ 13) = true := by
    intro line clean byte member
    exact decide_eq_true fun cr => clean.1 (cr ▸ member)
  have upTo : ∀ line after : Bytes, Clean line →
      (line ++ (crlf ++ after)).takeWhile (fun byte => decide (byte ≠ 13)) = line := by
    intro line after clean
    rw [List.takeWhile_append_of_pos (plain line clean)]
    simp [crlf]
  have whole := congrArg (List.takeWhile fun byte => decide (byte ≠ 13)) same
  rw [upTo _ _ left, upTo _ _ right] at whole
  subst whole
  exact ⟨rfl, List.append_cancel_left (List.append_cancel_left same)⟩

/-- As many bulk values as are announced end at one place. -/
theorem bulks_append_unique (left : ∀ value ∈ values, Bulk value) (right : ∀ value ∈ others, Bulk value)
    (lengths : values.length = others.length) (same : values.flatten ++ rest = others.flatten ++ remains) :
    values = others ∧ rest = remains := by
  induction values generalizing others with
  | nil =>
      cases List.eq_nil_of_length_eq_zero lengths.symm
      exact ⟨rfl, same⟩
  | cons value values ih =>
      cases others with
      | nil => cases lengths
      | cons text others =>
          simp only [List.flatten_cons, List.append_assoc] at same
          obtain ⟨rfl, later⟩ := (left value (by simp)).unique (right text (by simp)) same
          obtain ⟨rfl, after⟩ := ih (fun other member => left other (by simp [member]))
            (fun other member => right other (by simp [member])) (Nat.succ.inj lengths) later
          exact ⟨rfl, after⟩

theorem Bulk.starts (bulk : Bulk value) : value.head? = some 36 := by
  cases bulk <;> rfl

theorem RespValue.ne_nil (reply : RespValue value) : value ≠ [] := by
  rintro rfl
  exact absurd reply.has_cr (by simp)

/-- Where one value begins, no other does. -/
theorem RespValue.unique (left : RespValue value) (right : RespValue text)
    (same : value ++ rest = text ++ remains) : value = text ∧ rest = remains := by
  have heads : value.head? = text.head? := by
    have := congrArg List.head? same
    rwa [List.head?_append_of_ne_nil _ left.ne_nil, List.head?_append_of_ne_nil _ right.ne_nil] at this
  cases left with
  | line mark line kind clean =>
      cases right with
      | line other text otherKind otherClean =>
          simp only [List.cons_append, List.append_assoc, List.cons.injEq] at same
          obtain ⟨rfl, after⟩ := clean_line_unique clean otherClean same.2
          exact ⟨by rw [same.1], after⟩
      | bulk bulk =>
          rw [bulk.starts] at heads
          cases heads
          simp at kind
      | multi bulks =>
          cases heads
          simp at kind
  | bulk bulk =>
      rw [bulk.starts] at heads
      cases right with
      | line other text kind clean =>
          cases heads
          simp at kind
      | bulk other => exact bulk.unique other same
      | multi bulks => cases heads
  | multi bulks =>
      cases right with
      | line other text kind clean =>
          cases heads
          simp at kind
      | bulk other =>
          rw [other.starts] at heads
          cases heads
      | multi others =>
          simp only [List.append_assoc] at same
          obtain ⟨lengths, after⟩ := lengthLine_unique same
          obtain ⟨rfl, rest⟩ := bulks_append_unique bulks others lengths after
          exact ⟨rfl, rest⟩

/-- Values that are read off the front of a stream of values are the first of these. -/
theorem respValues_front (left : ∀ value ∈ values, RespValue value) (right : ∀ text ∈ texts, RespValue text)
    (same : values.flatten ++ rest = texts.flatten) : values <+: texts := by
  induction values generalizing texts with
  | nil => exact List.nil_prefix
  | cons value values ih =>
      cases texts with
      | nil =>
          simp only [List.flatten_cons, List.append_assoc, List.flatten_nil, List.append_eq_nil_iff] at same
          exact absurd same.1 (left value (by simp)).ne_nil
      | cons text texts =>
          simp only [List.flatten_cons, List.append_assoc] at same
          obtain ⟨rfl, later⟩ := (left value (by simp)).unique (right text (by simp)) same
          obtain ⟨more, rfl⟩ := ih (fun other member => left other (by simp [member]))
            (fun other member => right other (by simp [member])) later
          exact ⟨more, rfl⟩

end Dbss.Resp
