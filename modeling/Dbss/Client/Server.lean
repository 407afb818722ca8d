import Dbss.Net.Link.RoundTrip

namespace Dbss

open Dbss.Data Dbss.Util Dbss.Ssdb Dbss.Net Dbss.Net.Link

/-! A server that answers every complete request with exactly one packet, in order. -/

/-- `limit` is the longest encoding of a request that the server takes. -/
structure Server where
  limit : Nat
  received : Bytes → List (List Bytes)
  answer : List (List Bytes) → List Bytes → List Bytes
  receives : ∀ {requests part}, (∀ request ∈ requests, (framing limit).Legal request) →
    (framing limit).Begins part → received ((framing limit).stream requests ++ part) = requests
  legal : ∀ earlier request, (framing maxPacketSize).Legal (answer earlier request)

namespace Server

variable (server : Server) {requests : List (List Bytes)}

/-- The answers to `requests` after `earlier` ones; each may depend on all that came before. -/
def answersAfter (earlier : List (List Bytes)) : List (List Bytes) → List (List Bytes)
  | [] => []
  | request :: later => server.answer earlier request :: answersAfter (earlier ++ [request]) later

def answers (requests : List (List Bytes)) : List (List Bytes) :=
  server.answersAfter [] requests

/-- Everything the server has sent once it has received `bytes`. -/
def peer (bytes : Bytes) : Bytes :=
  (framing maxPacketSize).stream (server.answers (server.received bytes))

theorem answersAfter_append (earlier front back : List (List Bytes)) :
    server.answersAfter earlier (front ++ back) =
      server.answersAfter earlier front ++ server.answersAfter (earlier ++ front) back := by
  induction front generalizing earlier with
  | nil => simp [answersAfter]
  | cons request later ih => simp [answersAfter, ih]

theorem answers_append (front back : List (List Bytes)) :
    server.answers (front ++ back) = server.answers front ++ server.answersAfter front back := by
  rw [answers, answersAfter_append, List.nil_append]
  rfl

@[simp] theorem answersAfter_length (earlier requests : List (List Bytes)) :
    (server.answersAfter earlier requests).length = requests.length := by
  induction requests generalizing earlier with
  | nil => rfl
  | cons request later ih => simp [answersAfter, ih]

theorem answersAfter_legal (earlier requests : List (List Bytes)) :
    ∀ packet ∈ server.answersAfter earlier requests, (framing maxPacketSize).Legal packet := by
  induction requests generalizing earlier with
  | nil => simp [answersAfter]
  | cons request later ih => simpa [answersAfter, server.legal] using ih (earlier ++ [request])

/-- While more of a stream of requests arrives, the server only sends more answers. -/
theorem received_grows {bytes extra rest : Bytes}
    (legal : ∀ request ∈ requests, (framing server.limit).Legal request)
    (whole : bytes ++ (extra ++ rest) = (framing server.limit).stream requests) :
    ∃ more, server.received (bytes ++ extra) = server.received bytes ++ more := by
  obtain ⟨front, back, part, rfl, rfl, split, next⟩ := (framing server.limit).stream_cut whole
  rw [← List.append_assoc] at split
  obtain ⟨middle, last, tail, rfl, cut, splitTail, nextTail⟩ := (framing server.limit).stream_cut split
  rw [List.forall_mem_append] at legal
  have before := server.receives legal.1 ((framing server.limit).begins_of_cut legal.2
    (by rw [← split, List.append_assoc]) next)
  rw [List.forall_mem_append] at legal
  have after := server.receives (List.forall_mem_append.mpr ⟨legal.1, legal.2.1⟩)
    ((framing server.limit).begins_of_cut legal.2.2 splitTail nextTail)
  rw [Framing.stream_append, List.append_assoc, ← cut] at after
  exact ⟨middle, by rw [before, List.append_assoc, after]⟩

/-! ### A server that reads with `Link::recv` -/

def takeRequest (bytes : Bytes) : Option (List Bytes) × Bytes :=
  match (Link.recv (.holding (bytes.take maxPacketSize) 0) .success).value with
  | some (first :: rest) => (some (first :: rest), bytes.drop (encode (first :: rest)).length)
  | none | some [] => (none, bytes)

def requestsIn : Receiver Bytes (List Bytes) UInt8 where
  held := id
  Ready _ := True
  next := takeRequest

theorem holding_take (bytes : Bytes) :
    (Link.holding (bytes.take maxPacketSize) 0).input.WellFormed ∧
      (Link.holding (bytes.take maxPacketSize) 0).input.content = bytes.take maxPacketSize := by
  have short := List.length_take_le maxPacketSize bytes
  simp only [maxPacketSize] at short
  exact ⟨Buffer.holding_wellFormed (by simp only [maxPacketSize]; omega), Buffer.holding_content⟩

theorem requestsIn_decodes : requestsIn.Decodes (framing maxPacketSize) where
  complete := by
    intro bytes message rest _ legal here
    obtain ⟨nonempty, fits⟩ := legal
    obtain ⟨valid, content⟩ := holding_take bytes
    have here : bytes = encode message ++ rest := here
    have front : (Link.holding (bytes.take maxPacketSize) 0).input.content =
        encode message ++ rest.take (maxPacketSize - (encode message).length) := by
      rw [content, here, List.take_append, List.take_of_length_le fits]
    obtain ⟨first, others, rfl⟩ := List.exists_cons_of_ne_nil nonempty
    have taken : takeRequest bytes = (some (first :: others), rest) := by
      rw [takeRequest, recv_packet valid nonempty fits front]
      simp [here]
    exact ⟨congrArg Prod.fst taken, trivial, congrArg Prod.snd taken⟩
  incomplete := by
    intro bytes message _ legal part
    obtain ⟨nonempty, fits⟩ := legal
    obtain ⟨valid, content⟩ := holding_take bytes
    have whole : bytes.take maxPacketSize = bytes :=
      List.take_of_length_le (part.1.length_le.trans fits)
    rw [whole] at valid content
    have left : takeRequest bytes = (none, bytes) := by
      rw [takeRequest, whole, recv_part valid nonempty fits (by rwa [content])]
      by_cases nothing : (Link.holding bytes 0).input.content = []
      · rw [if_pos nothing]
      · rw [if_neg nothing]
        cases (Link.holding bytes 0).input.makeRoom.1 <;> rfl
    exact ⟨congrArg Prod.fst left, trivial, congrArg Prod.snd left⟩

def echo : Server where
  limit := maxPacketSize
  received bytes := (requestsIn.drain bytes.length bytes).1
  answer _ request := if request ≠ [] ∧ (encode request).length ≤ maxPacketSize then request else [[]]
  receives legal begins := (Receiver.drain_stream requestsIn_decodes legal trivial (Nat.le_refl _) rfl begins).1
  legal _ request := by
    split
    · next legal => exact legal
    · exact ⟨by simp, by decide⟩

theorem echo_answer {request : List Bytes} (legal : (framing maxPacketSize).Legal request)
    (earlier : List (List Bytes)) : echo.answer earlier request = request :=
  if_pos legal

end Server

end Dbss
