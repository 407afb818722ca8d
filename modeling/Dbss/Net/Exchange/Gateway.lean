import Dbss.Net.Exchange.Redis
import Dbss.Net.LinkRedis.Keyspace

namespace Dbss.Net.RedisExchange

open Dbss.Data Dbss.Util Dbss.Ssdb Dbss.Resp Dbss.Net.Link Dbss.Net.Exchange Dbss.Net.RedisLink

/-! A Redis client that is served from an SSDB database through a link: as long
as it uses each key for one type, it sees what it would see of a Redis server. -/

variable {answer : List (List Bytes) → List Bytes → List Bytes} {state next last : RedisExchange}
  {action : Action} {actions : List Action} {args : List Bytes} {calls : List RedisCall} {space : Keyspace}
  {kinds : Bytes → Kind} {earlier front : List (List Bytes)} {texts : List Bytes}

/-- A reply that can be sent for every Redis command that the request may come from. -/
def Presentable (request reply : List Bytes) : Prop :=
  (reply.head? = some (ascii "ok") ∨ reply.head? = some (ascii "not_found")) ∧ Link.Fits reply ∧
    ∀ desc ∈ cmdsRaw, desc.ssdbCmd = request.headD [] →
      AnswersOk desc request reply ∧ (desc.replyType = .int → ∀ text ∈ reply[1]?, Clean text)

instance (desc : RedisRequestDesc) (request reply : List Bytes) : Decidable (AnswersOk desc request reply) :=
  inferInstanceAs (Decidable (ite _ _ _))

instance (request reply : List Bytes) : Decidable (Presentable request reply) :=
  inferInstanceAs (Decidable (_ ∧ (_ ∧ ∀ record ∈ reply, record.length ≤ 2147483630) ∧ _))

theorem Presentable.row {desc : RedisRequestDesc} {reply : List Bytes}
    (presentable : Presentable (converted args) reply)
    (installed : (serving args).reqDesc = some desc) :
    AnswersOk desc (serving args).recvString reply ∧ (desc.replyType = .int → ∀ text ∈ reply[1]?, Clean text) := by
  obtain ⟨row, first⟩ := serving_row installed
  refine presentable.2.2 desc row ?_
  rw [converted, List.headD_eq_head?_getD, first]
  rfl

end Dbss.Net.RedisExchange
