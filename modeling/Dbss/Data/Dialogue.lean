import Dbss.Data.Framing

namespace Dbss.Data

/-! Requests and replies that travel over two one-way lines. -/

/-- The bytes of a one-way line by where they are: with the sender, on the way,
or with the receiver. -/
structure Line (β : Type) where
  queued : List β
  flight : List β
  held : List β

namespace Line

variable {α β : Type} {framing : Framing α β} {line next : Line β} {put got : List α}

def bytes (line : Line β) : List β :=
  line.held ++ (line.flight ++ line.queued)

/-- Of the messages put in, the first have come out and the others are on the line. -/
def Carries (framing : Framing α β) (line : Line β) (put got : List α) : Prop :=
  ∃ left, put = got ++ left ∧ line.bytes = framing.stream left

theorem carries_start : Carries framing ⟨[], [], []⟩ [] [] :=
  ⟨[], rfl, rfl⟩

theorem Carries.puts (carries : line.Carries framing put got) (message : α)
    (more : next.bytes = line.bytes ++ framing.encode message) :
    next.Carries framing (put ++ [message]) got := by
  obtain ⟨left, same, bytes⟩ := carries
  refine ⟨left ++ [message], by rw [same, List.append_assoc], ?_⟩
  rw [more, bytes, Framing.stream_append, Framing.stream_cons, Framing.stream_nil, List.append_nil]

/-- Where bytes only move along the line it carries what it carried. -/
theorem Carries.move (carries : line.Carries framing put got) (same : next.bytes = line.bytes) :
    next.Carries framing put got := by
  obtain ⟨left, split, bytes⟩ := carries
  exact ⟨left, split, same.trans bytes⟩

/-- Where everything has arrived and what is held is at most a part of the next
message, there is no next message. -/
theorem Carries.drained (carries : line.Carries framing put got) (queued : line.queued = [])
    (flight : line.flight = [])
    (waits : ∀ left, put = got ++ left → line.bytes = framing.stream left →
      ∀ next ∈ left.head?, framing.Part line.held next) : got = put := by
  obtain ⟨left, split, bytes⟩ := carries
  have here := waits left split bytes
  cases left with
  | nil => rw [split, List.append_nil]
  | cons next later =>
      obtain ⟨⟨missing, short⟩, whole⟩ := here next rfl
      rw [Line.bytes, queued, flight, List.append_nil, List.append_nil, Framing.stream_cons] at bytes
      have lengths := congrArg List.length bytes
      have shorter := congrArg List.length short
      simp only [List.length_append] at lengths shorter
      have none : missing = [] := List.eq_nil_of_length_eq_zero (by omega)
      exact absurd (by simpa [none] using short) whole

end Line

/-- What has passed between a client and a service: the requests asked and
those taken up, the replies given and those received. -/
structure Dialogue (ρ α : Type) where
  asked : List ρ
  taken : List ρ
  given : List α
  received : List α

namespace Dialogue

variable {ρ α : Type} {answer : List ρ → ρ → α} {dialogue next : Dialogue ρ α}

def start : Dialogue ρ α :=
  ⟨[], [], [], []⟩

/-- The service takes requests up in the order of asking, gives one reply to
each in that order, which may depend on the earlier requests, and the client
receives the replies in the order of giving. -/
inductive Step (answer : List ρ → ρ → α) (dialogue : Dialogue ρ α) : Dialogue ρ α → Prop where
  | ask (request : ρ) : Step answer dialogue { dialogue with asked := dialogue.asked ++ [request] }
  | take {request : ρ} {later : List ρ} (turn : dialogue.asked = dialogue.taken ++ request :: later) :
      Step answer dialogue { dialogue with taken := dialogue.taken ++ [request] }
  | give {earlier later : List ρ} {request : ρ} (turn : dialogue.taken = earlier ++ request :: later)
      (due : dialogue.given.length = earlier.length) :
      Step answer dialogue { dialogue with given := dialogue.given ++ [answer earlier request] }
  | receive {reply : α} {later : List α} (turn : dialogue.given = dialogue.received ++ reply :: later) :
      Step answer dialogue { dialogue with received := dialogue.received ++ [reply] }

/-- No request is lost, repeated or overtaken, and each reply given is the one
to the request in its place. -/
structure InOrder (answer : List ρ → ρ → α) (dialogue : Dialogue ρ α) : Prop where
  taken : dialogue.taken <+: dialogue.asked
  within : dialogue.given.length ≤ dialogue.taken.length
  answers : ∀ {earlier request later}, dialogue.taken = earlier ++ request :: later →
    ∀ reply ∈ dialogue.given[earlier.length]?, reply = answer earlier request
  received : dialogue.received <+: dialogue.given

theorem start_inOrder : InOrder answer start :=
  ⟨List.prefix_rfl, Nat.le_refl _, by simp [start], List.prefix_rfl⟩

theorem prefix_snoc {β : Type} {front whole later : List β} {item : β} (split : whole = front ++ item :: later) :
    front ++ [item] <+: whole :=
  ⟨later, by rw [split, List.append_assoc, List.singleton_append]⟩

/-- A place before the last keeps what stands in it. -/
theorem getElem?_snoc {β : Type} {items : List β} {item found : β} {place : Nat} (short : place < items.length)
    (member : found ∈ (items ++ [item])[place]?) : found ∈ items[place]? := by
  rwa [List.getElem?_append_left short] at member

theorem InOrder.step (order : InOrder answer dialogue) (step : Step answer dialogue next) :
    InOrder answer next := by
  obtain ⟨taken, within, answers, received⟩ := order
  cases step with
  | ask request => exact ⟨taken.trans (List.prefix_append _ _), within, answers, received⟩
  | @take request later turn =>
      refine ⟨prefix_snoc turn, by simp only [List.length_append]; omega, ?_, received⟩
      intro earlier other rest split reply member
      have bound : earlier.length < dialogue.given.length := (List.getElem?_eq_some_iff.mp member).1
      obtain ⟨kept, keeps⟩ : ∃ kept, dialogue.taken = earlier ++ other :: kept := by
        have := congrArg (List.take dialogue.taken.length) split
        rw [List.take_append_of_le_length (Nat.le_refl _), List.take_length] at this
        rw [this, List.take_append, List.take_of_length_le (by omega)]
        obtain ⟨fuel, enough⟩ : ∃ fuel, dialogue.taken.length - earlier.length = fuel + 1 :=
          ⟨dialogue.taken.length - earlier.length - 1, by omega⟩
        exact ⟨_, by rw [enough, List.take_succ_cons]⟩
      exact answers keeps reply member
  | @give earlier later request turn due =>
      refine ⟨taken, ?_, ?_, received.trans (List.prefix_append _ _)⟩
      · have := congrArg List.length turn
        simp only [List.length_append, List.length_cons, List.length_nil] at this ⊢
        omega
      · intro before other rest split reply member
        by_cases last : before.length = dialogue.given.length
        · obtain ⟨rfl, tails⟩ := List.append_inj (split.symm.trans turn) (by omega)
          rw [last, List.getElem?_append_right (Nat.le_refl _), Nat.sub_self] at member
          cases tails
          exact (Option.some.inj member).symm
        · have bound := (List.getElem?_eq_some_iff.mp member).1
          simp only [List.length_append, List.length_singleton] at bound
          exact answers split reply (getElem?_snoc (by omega) member)
  | receive turn => exact ⟨taken, within, answers, prefix_snoc turn⟩

/-- What the client has received are the replies to its first requests, in order. -/
theorem InOrder.replies (order : InOrder answer dialogue) :
    dialogue.received.length ≤ dialogue.asked.length ∧
      ∀ {earlier request later}, dialogue.asked = earlier ++ request :: later →
        ∀ reply ∈ dialogue.received[earlier.length]?, reply = answer earlier request := by
  obtain ⟨⟨untaken, taken⟩, within, answers, ⟨pending, received⟩⟩ := order
  have given := congrArg List.length received
  have asked := congrArg List.length taken
  simp only [List.length_append] at given asked
  refine ⟨by omega, fun {earlier request later} split reply member => ?_⟩
  have bound := (List.getElem?_eq_some_iff.mp member).1
  have reaches : earlier.length + 1 ≤ dialogue.taken.length := by omega
  have front : dialogue.taken.take (earlier.length + 1) = earlier ++ [request] := by
    have := congrArg (List.take (earlier.length + 1)) (taken.trans split)
    rw [List.take_append_of_le_length reaches] at this
    rw [this, List.take_append]
    simp
  have whole : dialogue.taken = earlier ++ request :: dialogue.taken.drop (earlier.length + 1) := by
    rw [← List.singleton_append, ← List.append_assoc, ← front, List.take_append_drop]
  refine answers whole reply ?_
  rw [← received, List.getElem?_append_left bound]
  exact member

end Dialogue

end Dbss.Data
