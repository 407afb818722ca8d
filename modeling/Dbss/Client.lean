import Dbss.Net.Link

namespace Dbss

open Dbss.Data Dbss.Util Dbss.Net

/-! `ClientImpl` of `SSDB_impl.h` and `SSDB_impl.cpp`: a request is sent, and
the next packet on the connection is taken for its answer. -/

/-- A `ClientImpl`.  The link is NULL before `connect`; `resp` is `resp_`. -/
structure ClientImpl where
  link : Option Link
  resp : List Bytes

/-- What a call of `request` returns, with `none` for NULL, and changes. -/
structure ClientCall where
  value : Option (List Bytes)
  client : ClientImpl
  host : Host

namespace ClientImpl

def connected (inputBlock outputBlock : Block) (inputReallocs outputReallocs : List Bool) : ClientImpl :=
  { link := some (.new inputBlock outputBlock inputReallocs outputReallocs), resp := [] }

/-- `request(const std::vector<std::string> &)`, which the other overloads
build their vector for. -/
def request (client : ClientImpl) (req : List Bytes) (host : Host) : Run ClientCall :=
  match client.link with
  | none => .undefined
  | some link =>
      match link.send req with
      | none => .undefined
      | some (ret, link) =>
          if ret = -1 then
            .done ⟨none, { client with link := some link }, host⟩
          else
            (link.flush host).bind fun flushed =>
              if flushed.value = -1 then
                .done ⟨none, { client with link := some flushed.link }, flushed.host⟩
              else
                (flushed.link.response flushed.host).bind fun answered =>
                  match answered.value with
                  | none => .done ⟨none, { client with link := some answered.link }, answered.host⟩
                  | some packet => .done ⟨some packet, ⟨some answered.link, packet⟩, answered.host⟩

end ClientImpl

structure Made where
  client : ClientImpl
  host : Host
  req : List Bytes

def Made.run (made : Made) : Run ClientCall :=
  made.client.request made.req made.host

/-- The calls a program makes one after the other.  One that does not return is the last. -/
def converse (client : ClientImpl) (host : Host) : List (List Bytes) → List Made
  | [] => []
  | req :: later =>
      ⟨client, host, req⟩ ::
        match client.request req host with
        | .done call => converse call.client call.host later
        | .waiting | .undefined => []

/-- Memory does not run out while the call appends to the output. -/
def Made.Allocates (made : Made) : Prop :=
  ∀ link ∈ made.client.link, ∀ sent ∈ link.send made.req, sent.2.output.oom = false

instance (made : Made) : Decidable made.Allocates :=
  inferInstanceAs (Decidable (∀ link ∈ made.client.link, ∀ sent ∈ link.send made.req, sent.2.output.oom = false))

end Dbss
