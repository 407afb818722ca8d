import Dbss.Data.MachineInt
import Dbss.Data.Decimal
import Dbss.Data.Memory
import Dbss.Data.Framing
import Dbss.Data.Dialogue
import Dbss.Data.Keeping
import Dbss.Data.Runs
import Dbss.Data.Holdings
import Dbss.Data.OrderedMap
import Dbss.Data.Queue
import Dbss.Util.Strings
import Dbss.Util.Numeral
import Dbss.Util.Conversion
import Dbss.Util.Escape
import Dbss.Util.Buffer
import Dbss.Util.Buffer.Content
import Dbss.Util.Buffer.Queue
import Dbss.Util.Buffer.Reach
import Dbss.Util.Buffer.Record
import Dbss.Util.Buffer.Limits
import Dbss.Ssdb.Format
import Dbss.Ssdb.Encoding
import Dbss.Ssdb.Grammar
import Dbss.Ssdb.Store
import Dbss.Ssdb.Counting
import Dbss.Ssdb.Lists
import Dbss.Resp.Format
import Dbss.Resp.Grammar
import Dbss.Resp.Stream
import Dbss.Net.Host
import Dbss.Net.LinkRedis
import Dbss.Net.LinkRedis.Request
import Dbss.Net.LinkRedis.Strict
import Dbss.Net.LinkRedis.State
import Dbss.Net.LinkRedis.Leftover
import Dbss.Net.LinkRedis.Reply
import Dbss.Net.LinkRedis.Merge
import Dbss.Net.LinkRedis.Ranks
import Dbss.Net.LinkRedis.Scores
import Dbss.Net.LinkRedis.Clauses
import Dbss.Net.LinkRedis.Pairs
import Dbss.Net.Link
import Dbss.Net.Link.Rounds
import Dbss.Net.Link.Recv
import Dbss.Net.Link.Send
import Dbss.Net.Link.Atomic
import Dbss.Net.Link.RoundTrip
import Dbss.Net.Link.Response
import Dbss.Net.Link.Arrival
import Dbss.Net.Link.Flush
import Dbss.Net.Link.FlushTrace
import Dbss.Net.Link.Hostile
import Dbss.Net.Link.Safety
import Dbss.Net.Link.Invariant
import Dbss.Net.Link.Mixed
import Dbss.Net.Link.Operations
import Dbss.Net.Link.Request
import Dbss.Net.Link.Sockets
import Dbss.Net.Link.Views
import Dbss.Net.Exchange
import Dbss.Net.Exchange.Progress
import Dbss.Net.Exchange.Redis
import Dbss.Net.Exchange.Gateway
import Dbss.Client
import Dbss.Client.Encoding
import Dbss.Client.Server
import Dbss.Client.Pairing
import Dbss.Client.Supply
import Dbss.Client.Commands
import Dbss.Client.Numbers
import Dbss.Client.Operands
import Dbss.Wrapper.Operation
import Dbss.Wrapper
import Dbss.Wrapper.Api
import Dbss.Wrapper.Lists
import Dbss.Net.LinkRedis.Values
import Dbss.Net.LinkRedis.Meaning
import Dbss.Net.LinkRedis.Counters
import Dbss.Net.LinkRedis.Lists
import Dbss.Net.LinkRedis.Calls
import Dbss.Net.LinkRedis.Keyspace
import Dbss.Wrapper.Lasting
import Dbss.Wrapper.Dictionary
import Dbss.Wrapper.Queues
import Dbss.Wrapper.Counters
import Dbss.Wrapper.Session
import Dbss.Wrapper.Batch
import Dbss.Wrapper.Objects
import Dbss.Lua.Number
import Dbss.Lua
import Dbss.Lua.Values
import Dbss.Lua.Multi
import Dbss.Lua.Methods
import Dbss.Lua.Lists
import Dbss.Lua.Program
