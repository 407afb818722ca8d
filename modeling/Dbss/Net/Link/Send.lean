import Dbss.Net.Link
import Dbss.Ssdb.Format
import Dbss.Util.Buffer.Content

namespace Dbss.Net.Link

open Dbss.Data Dbss.Util Dbss.Ssdb

/-! What `Link::send` adds to the output buffer in either protocol. -/

variable {link sent : Link} {output : Buffer} {resp : List Bytes}

/-- Longer elements overflow the `int` that `append_record` reserves space with. -/
def Sendable (resp : List Bytes) : Prop :=
  ∀ record ∈ resp, record.length ≤ 2147483630

theorem sendRecords_appends (valid : output.WellFormed) (sendable : Sendable resp) :
    Buffer.Appends output (sendRecords output resp) (encode resp) := by
  have records : Buffer.Appends output _ (resp.flatMap encodeRecord) :=
    valid.foldl_appends fun record member before ready =>
      ready.appendRecord_appends (sendable record member)
  exact records.trans (records.valid.append_appends (by simp))

theorem send_ssdb (plain : link.redis = none) (nonempty : resp ≠ []) :
    link.send resp = some (0, { link with output := sendRecords link.output resp }) := by
  rw [send, if_neg nonempty, plain]

end Dbss.Net.Link
