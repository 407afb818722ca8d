import Mathlib.Data.List.Basic
import Mathlib.Data.List.Infix

namespace Dbss.Data

/-! Receiving messages from a byte stream that arrives in arbitrary pieces.

A `Framing` is the sender's side: how a message is written.  A `Receiver` is
any state machine that holds the bytes that have arrived and is asked, again
and again, for the next message.  `Receiver.Decodes` is the local contract
between the two, and `drain_spec` and `Feed.delivers` are what it gives over
whole runs: however the stream is cut, the messages come out in order, each
exactly once. -/

/-- Where a cut falls: behind the front part, or inside it. -/
theorem cut_cases {β : Type} {held more front rest : List β} (split : held ++ more = front ++ rest) :
    (∃ extra, held = front ++ extra ∧ extra ++ more = rest) ∨
      ∃ missing, missing ≠ [] ∧ held ++ missing = front := by
  rcases List.append_eq_append_iff.mp split with ⟨missing, cut, after⟩ | ⟨extra, whole, after⟩
  · cases missing with
    | nil => exact .inl ⟨[], by simpa using cut.symm, after⟩
    | cons first others => exact .inr ⟨first :: others, by simp, cut.symm⟩
  · exact .inl ⟨extra, whole, after.symm⟩

structure Framing (α β : Type) where
  encode : α → List β
  Legal : α → Prop
  encode_ne_nil : ∀ {message}, Legal message → encode message ≠ []

namespace Framing

variable {α β : Type} (framing : Framing α β)

def stream (messages : List α) : List β :=
  messages.flatMap framing.encode

/-- The bytes of a message that has begun to arrive but is not all there. -/
def Part (part : List β) (message : α) : Prop :=
  part <+: framing.encode message ∧ part ≠ framing.encode message

@[simp] theorem stream_nil : framing.stream [] = [] := rfl

@[simp] theorem stream_cons (message : α) (rest : List α) :
    framing.stream (message :: rest) = framing.encode message ++ framing.stream rest := rfl

@[simp] theorem stream_append (front back : List α) :
    framing.stream (front ++ back) = framing.stream front ++ framing.stream back := by
  simp [stream]

theorem held_cases {held more rest : List β} {message : α}
    (split : held ++ more = framing.encode message ++ rest) :
    (∃ extra, held = framing.encode message ++ extra ∧ extra ++ more = rest) ∨
      framing.Part held message := by
  rcases cut_cases split with whole | ⟨missing, some, cut⟩
  · exact .inl whole
  · refine .inr ⟨⟨missing, cut⟩, fun same => some ?_⟩
    rw [same] at cut
    exact List.append_right_eq_self.mp cut

/-- Wherever a stream is cut, whole messages stand in front of the cut, then
perhaps a part of the next one. -/
theorem stream_cut {held more : List β} {messages : List α} (split : held ++ more = framing.stream messages) :
    ∃ front back part, messages = front ++ back ∧ held = framing.stream front ++ part ∧
      part ++ more = framing.stream back ∧ ∀ next ∈ back.head?, framing.Part part next := by
  induction messages generalizing held with
  | nil => exact ⟨[], [], held, rfl, rfl, split, by simp⟩
  | cons message rest ih =>
      rcases framing.held_cases split with ⟨extra, here, tail⟩ | part
      · obtain ⟨front, back, part, parts, cut, after, next⟩ := ih tail
        refine ⟨message :: front, back, part, by rw [parts]; rfl, ?_, after, next⟩
        rw [here, cut, stream_cons, List.append_assoc]
      · refine ⟨[], message :: rest, held, rfl, rfl, split, fun next first => ?_⟩
        cases first
        exact part

/-- What may be left over where a stream is cut. -/
def Begins (part : List β) : Prop :=
  part = [] ∨ ∃ message, framing.Legal message ∧ framing.Part part message

theorem begins_of_cut {part more : List β} {back : List α} (legal : ∀ message ∈ back, framing.Legal message)
    (split : part ++ more = framing.stream back) (next : ∀ message ∈ back.head?, framing.Part part message) :
    framing.Begins part := by
  cases back with
  | nil => exact .inl (List.append_eq_nil_iff.mp split).1
  | cons message rest => exact .inr ⟨message, legal message (by simp), next message rfl⟩

end Framing

/-- A state that holds received bytes and can be asked for the next message. -/
structure Receiver (σ α β : Type) where
  held : σ → List β
  Ready : σ → Prop
  next : σ → Option α × σ

namespace Receiver

variable {σ α β : Type} (receiver : Receiver σ α β) (framing : Framing α β)

/-- The receiver takes a complete message off the front of what it holds, and
leaves a part of a message alone. -/
structure Decodes : Prop where
  complete : ∀ {state message rest}, receiver.Ready state → framing.Legal message →
    receiver.held state = framing.encode message ++ rest →
    (receiver.next state).1 = some message ∧ receiver.Ready (receiver.next state).2 ∧
      receiver.held (receiver.next state).2 = rest
  incomplete : ∀ {state message}, receiver.Ready state → framing.Legal message →
    framing.Part (receiver.held state) message →
    (receiver.next state).1 = none ∧ receiver.Ready (receiver.next state).2 ∧
      receiver.held (receiver.next state).2 = receiver.held state

/-- Ask for messages until there is none; nothing is asked of an empty state. -/
def drain [DecidableEq β] : Nat → σ → List α × σ
  | 0, state => ([], state)
  | fuel + 1, state =>
      if receiver.held state = [] then ([], state)
      else
        let asked := receiver.next state
        match asked.1 with
        | none => ([], asked.2)
        | some message =>
            let later := drain fuel asked.2
            (message :: later.1, later.2)

variable {receiver framing} [DecidableEq β]

theorem drain_empty {fuel : Nat} {state : σ} (nothing : receiver.held state = []) :
    receiver.drain fuel state = ([], state) := by
  cases fuel with
  | zero => rfl
  | succ fuel => rw [drain, if_pos nothing]

theorem drain_none {fuel : Nat} {state : σ} (nonempty : receiver.held state ≠ [])
    (answered : (receiver.next state).1 = none) :
    receiver.drain (fuel + 1) state = ([], (receiver.next state).2) := by
  rw [drain, if_neg nonempty]
  simp only [answered]

theorem drain_some {fuel : Nat} {state : σ} {message : α} (nonempty : receiver.held state ≠ [])
    (answered : (receiver.next state).1 = some message) :
    receiver.drain (fuel + 1) state =
      (message :: (receiver.drain fuel (receiver.next state).2).1,
        (receiver.drain fuel (receiver.next state).2).2) := by
  rw [drain, if_neg nonempty]
  simp only [answered]

theorem drain_stream (decodes : receiver.Decodes framing) {messages : List α}
    (legal : ∀ message ∈ messages, framing.Legal message) {fuel : Nat} {state : σ} {part : List β}
    (ready : receiver.Ready state) (enough : (receiver.held state).length ≤ fuel)
    (here : receiver.held state = framing.stream messages ++ part) (begins : framing.Begins part) :
    (receiver.drain fuel state).1 = messages ∧ receiver.Ready (receiver.drain fuel state).2 ∧
      receiver.held (receiver.drain fuel state).2 = part := by
  induction messages generalizing fuel state with
  | nil =>
      rw [Framing.stream_nil, List.nil_append] at here
      by_cases nothing : receiver.held state = []
      · rw [drain_empty nothing]
        exact ⟨rfl, ready, here⟩
      · obtain ⟨fuel, rfl⟩ : ∃ less, fuel = less + 1 :=
          Nat.exists_eq_add_one.mpr (Nat.lt_of_lt_of_le (List.length_pos_iff.mpr nothing) enough)
        rcases begins with rfl | ⟨message, legal, cut⟩
        · exact absurd here nothing
        · obtain ⟨answered, readyAfter, same⟩ := decodes.incomplete ready legal (here ▸ cut)
          rw [drain_none nothing answered]
          exact ⟨rfl, readyAfter, same.trans here⟩
  | cons message rest ih =>
      rw [Framing.stream_cons, List.append_assoc] at here
      have positive := List.length_pos_iff.mpr (framing.encode_ne_nil (legal message (by simp)))
      have lengths := congrArg List.length here
      rw [List.length_append] at lengths
      obtain ⟨fuel, rfl⟩ : ∃ less, fuel = less + 1 := Nat.exists_eq_add_one.mpr (by omega)
      obtain ⟨answered, readyAfter, after⟩ := decodes.complete ready (legal message (by simp)) here
      have shorter : (receiver.held (receiver.next state).2).length ≤ fuel := by
        rw [after]
        omega
      obtain ⟨got, readyEnd, kept⟩ := ih (fun other member => legal other (by simp [member])) readyAfter
        shorter after
      rw [drain_some (List.ne_nil_of_length_pos (by omega)) answered]
      exact ⟨by rw [got], readyEnd, kept⟩

/-- Draining bytes from the front of a stream takes out the messages that are
all there and keeps a part of the next one. -/
theorem drain_spec (decodes : receiver.Decodes framing) {messages : List α}
    (legal : ∀ message ∈ messages, framing.Legal message) {fuel : Nat} {state : σ}
    (ready : receiver.Ready state) (enough : (receiver.held state).length ≤ fuel)
    {more : List β} (split : receiver.held state ++ more = framing.stream messages) :
    ∃ taken left, messages = taken ++ left ∧ (receiver.drain fuel state).1 = taken ∧
      receiver.Ready (receiver.drain fuel state).2 ∧
      receiver.held (receiver.drain fuel state).2 ++ more = framing.stream left ∧
      (∀ message ∈ left.head?, framing.Part (receiver.held (receiver.drain fuel state).2) message) := by
  obtain ⟨taken, left, part, parts, here, rest, next⟩ := framing.stream_cut split
  have legalLeft : ∀ message ∈ left, framing.Legal message := fun message member =>
    legal message (by simp [parts, member])
  obtain ⟨got, readyEnd, kept⟩ := drain_stream decodes
    (fun message member => legal message (by simp [parts, member])) ready enough here
    (framing.begins_of_cut legalLeft rest next)
  exact ⟨taken, left, parts, got, readyEnd, by rw [kept]; exact rest, by rwa [kept]⟩

variable (receiver) in
/-- A run in which chunks arrive and the receiver is drained after each one. -/
inductive Feed : σ → List (List β) → List α → σ → Prop
  | stop {state} : Feed state [] [] state
  | chunk {state arrived final chunk chunks messages} :
      receiver.Ready arrived →
      receiver.held arrived = receiver.held state ++ chunk →
      Feed (receiver.drain (receiver.held arrived).length arrived).2 chunks messages final →
      Feed state (chunk :: chunks)
        ((receiver.drain (receiver.held arrived).length arrived).1 ++ messages) final

/-- However a stream of messages is cut into chunks, the run yields exactly
these messages in order, and nothing is left over. -/
theorem Feed.delivers (decodes : receiver.Decodes framing) {state final : σ}
    {chunks : List (List β)} {messages sent : List α}
    (run : Feed receiver state chunks messages final)
    (legal : ∀ message ∈ sent, framing.Legal message)
    (idle : ∀ message ∈ sent.head?, framing.Part (receiver.held state) message)
    (whole : receiver.held state ++ chunks.flatten = framing.stream sent) :
    messages = sent ∧ receiver.held final = [] := by
  induction run generalizing sent with
  | stop =>
      cases sent with
      | nil => exact ⟨rfl, by simpa using whole⟩
      | cons message rest =>
          -- a part of a message cannot be a whole stream that starts with it
          obtain ⟨⟨missing, completed⟩, different⟩ := idle message rfl
          have lengths := congrArg List.length whole
          have partLengths := congrArg List.length completed
          simp only [List.flatten_nil, List.append_nil, Framing.stream_cons,
            List.length_append] at lengths partLengths
          have none : missing = [] := List.eq_nil_of_length_eq_zero (by omega)
          exact absurd (by simpa [none] using completed) different
  | @chunk state arrived final chunk chunks messages ready grown run ih =>
      obtain ⟨taken, left, parts, got, readyAfter, kept, cut⟩ :=
        drain_spec decodes legal ready (Nat.le_refl _)
          (show receiver.held _ ++ chunks.flatten = _ by rw [grown]; simpa using whole)
      subst parts
      obtain ⟨rest, nothing⟩ := ih (fun message member => legal message (by simp [member])) cut kept
      exact ⟨by rw [got, rest], nothing⟩

end Receiver

end Dbss.Data
