import ZeroFrameworks.Core.AddressText
import ZeroFrameworks.Core.ByteArrayRetry
import ZeroFrameworks.Core.FdTable
import ZeroFrameworks.Core.Idle
import ZeroFrameworks.Core.LogOverflow
import ZeroFrameworks.Core.SchedulerRuns
import ZeroFrameworks.Core.Wakeups
import ZeroFrameworks.Db.MySQLConnectionPool
import ZeroFrameworks.Db.SqlParens
import ZeroFrameworks.Db.SqlStatements
import ZeroFrameworks.Http.HpackSafety
import ZeroFrameworks.Http.Http2
import ZeroFrameworks.Http.HttpConnection
import ZeroFrameworks.Http.HttpConnectionPool
import ZeroFrameworks.Http.HttpRequestParser
import ZeroFrameworks.Http.QueryParams
import ZeroFrameworks.Http.RateLimit
import ZeroFrameworks.Http.WsBounds
import ZeroFrameworks.Http.WsFrames
import ZeroFrameworks.Kv.Blocking.Waiters
import ZeroFrameworks.Kv.Cluster.Announcements
import ZeroFrameworks.Kv.Cluster.Failures
import ZeroFrameworks.Kv.Cluster.Migrate
import ZeroFrameworks.Kv.Cluster.SlotOwners
import ZeroFrameworks.Kv.Commands.Counters
import ZeroFrameworks.Kv.Commands.Deadlines
import ZeroFrameworks.Kv.Commands.ExplicitIds
import ZeroFrameworks.Kv.Commands.ScoreRanges
import ZeroFrameworks.Kv.Commands.StreamArgs
import ZeroFrameworks.Kv.Persistence.Recovery
import ZeroFrameworks.Kv.Persistence.Restore
import ZeroFrameworks.Kv.Resp.Bounds
import ZeroFrameworks.Kv.Resp.RoundTrip
import ZeroFrameworks.Kv.Server.PubSubRuns
import ZeroFrameworks.Kv.Server.Roles
import ZeroFrameworks.Kv.Server.ShardLocks
import ZeroFrameworks.Kv.Server.Transactions
import ZeroFrameworks.Kv.Store.Glob
import ZeroFrameworks.Kv.Store.Interleaving
import ZeroFrameworks.Kv.Store.Moves
import ZeroFrameworks.Kv.Store.RankedViews
import ZeroFrameworks.Kv.Store.Recency
import ZeroFrameworks.Kv.Store.Removals
import ZeroFrameworks.Kv.Store.ScanPairs
import ZeroFrameworks.Rpc.Campaign
import ZeroFrameworks.Rpc.ChannelManager
import ZeroFrameworks.Rpc.ChannelRuns
import ZeroFrameworks.Rpc.CircuitBreaker
import ZeroFrameworks.Rpc.Fairness
import ZeroFrameworks.Rpc.KvNode
import ZeroFrameworks.Rpc.Votes
import ZeroFrameworks.Util.JwtUtil
