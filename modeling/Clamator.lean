import Clamator.Base.Tree
import Clamator.Base.Binary64
import Clamator.Base.Reach
import Clamator.Protocol.Value
import Clamator.Protocol.Wire
import Clamator.Protocol.Names
import Clamator.Protocol.Envelope
import Clamator.Protocol.EnvelopePy
import Clamator.Protocol.ParserAgreement
import Clamator.Protocol.Errors
import Clamator.Protocol.ErrorData
import Clamator.Protocol.ServerCore
import Clamator.Protocol.ServerCorePy
import Clamator.Protocol.Answered
import Clamator.Protocol.ClientCore
import Clamator.Protocol.Correlation
import Clamator.Protocol.Accepted
import Clamator.Protocol.ReplyWire
import Clamator.Protocol.DecisionTable
import Clamator.Codegen.ProxyParams
import Clamator.Redis.Entry
import Clamator.Redis.HandleEntry
import Clamator.Base.Stream
import Clamator.Redis.ServerLoop
import Clamator.Redis.NamedField
import Clamator.Redis.BatchLoop
import Clamator.Redis.PyLoops
import Clamator.Redis.Drain
import Clamator.Redis.Draining
import Clamator.Redis.GracefulStop
import Clamator.Redis.World
import Clamator.Redis.History
import Clamator.Redis.Calls
import Clamator.Redis.AtLeastOnce
import Clamator.Redis.ReplyIntegrity
import Clamator.Redis.SingleServer
import Clamator.Base.Ledger
import Clamator.Redis.RepliesOnce
import Clamator.Redis.Recovery
import Clamator.Redis.CallRecovery
import Clamator.Base.Behind
import Clamator.Redis.Starvation
import Clamator.Redis.StopBound
import Clamator.Protocol.JsonValues
import Clamator.Redis.RoundTrip
import Clamator.Redis.Parity
import Clamator.Redis.PyParity
import Clamator.Lifecycle.Core
import Clamator.Lifecycle.RedisTransport
import Clamator.Lifecycle.MemoryTransport
import Clamator.Lifecycle.FailedStart
import Clamator.Lifecycle.Overlap
import Clamator.Base.Pending
import Clamator.Client.RedisTransport
import Clamator.Client.Bookkeeping
import Clamator.Client.StopSettles
import Clamator.Client.MemoryTransport
import Clamator.Client.Leaks
import Clamator.Client.ReplyLoop
import Clamator.Client.PySends
import Clamator.Client.PyLeaks
import Clamator.Base.Cells
import Clamator.Client.PyBookkeeping
import Clamator.Client.PyStop
import Clamator.Client.PyMemory
import Clamator.Client.MemoryEntries
import Clamator.Client.MemoryStop
import Clamator.Redis.Keys
import Clamator.Redis.NameChecks
import Clamator.Redis.Shared
import Clamator.Base.Assoc
import Clamator.Protocol.ErrorIdentity
import Clamator.Base.JsonText
import Clamator.Base.StableSort
import Clamator.Codegen.Case
import Clamator.Codegen.Ir
import Clamator.Codegen.Emit
import Clamator.Base.OptionList
import Clamator.Codegen.Handlers
import Clamator.Codegen.Manifest
import Clamator.Codegen.Drift
import Clamator.Codegen.Order
import Clamator.Codegen.Identifiers
import Clamator.Codegen.Dispatch
import Clamator.Base.Job
import Clamator.Codegen.Cli
