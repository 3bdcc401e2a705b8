import Turbine.Base.Runs
import Turbine.Dispatch.Model
import Turbine.Dispatch.Step
import Turbine.Base.Counting
import Turbine.Dispatch.Inversion
import Turbine.Dispatch.Exclusion
import Turbine.Dispatch.Permits
import Turbine.Dispatch.Accounting
import Turbine.Dispatch.Replacement
import Turbine.Dispatch.Channel
import Turbine.Dispatch.Quota
import Turbine.Pool.Model
import Turbine.Pool.Reap
import Turbine.Base.Bytes
import Turbine.Native.Request
import Turbine.Base.Utf8
import Turbine.Native.Response
import Turbine.Native.Worker
import Turbine.Persistent.Response
import Turbine.Base.Str
import Turbine.Engine.Output
import Turbine.Persistent.Request
import Turbine.Persistent.Worker
import Turbine.Base.Wakeups
import Turbine.Cache.Coalescer
import Turbine.Tasks.Queue
import Turbine.NamedPool.Model
import Turbine.NamedPool.Exclusion
import Turbine.NamedPool.Failure
import Turbine.Http.Form
import Turbine.Http.Multipart
import Turbine.Http.Uploads
import Turbine.Http.Path
import Turbine.Server.Scripts
import Turbine.Server.Checks
import Turbine.Http.Request
import Turbine.Http.Superglobals
import Turbine.Server.Forward
import Turbine.Cache.Keyed
import Turbine.Cache.Store
import Turbine.Server.Sharing
import Turbine.Server.Confinement
import Turbine.Dispatch.Table
import Turbine.Cache.Singleflight
import Turbine.Tables.Shared
import Turbine.Server.Occupancy
import Turbine.Pool.Termination
import Turbine.Http.Response
import Turbine.Server.Replay
import Turbine.Base.Handles
import Turbine.Pool.Descriptors
import Turbine.Base.Loops
import Turbine.Streaming.Body
import Turbine.Streaming.Forwarder
import Turbine.Native.Transport
import Turbine.Dispatch.Refresh
import Turbine.Tasks.Conservation
import Turbine.WebSocket.Hub
import Turbine.Base.Disk
import Turbine.AsyncIo.Write
import Turbine.Base.Directories
import Turbine.Base.Octal
import Turbine.Embed.Archive
import Turbine.Embed.Extract
import Turbine.Base.Assoc
import Turbine.Base.TtlMap
import Turbine.Base.Threads
import Turbine.Base.Float64
import Turbine.Cache.History
import Turbine.Tables.Expiry
import Turbine.Tables.Races
import Turbine.Tables.Bounds
import Turbine.Tables.Alone
import Turbine.Persistent.Cleanup
import Turbine.Security.Guard
import Turbine.Security.Restart
import Turbine.Security.Evaluation
import Turbine.Security.Concurrent
import Turbine.Security.Blocks
import Turbine.Base.Patterns
import Turbine.Security.SqlGuard
import Turbine.Security.Input
import Turbine.Base.Separators
import Turbine.Server.InputScan
import Turbine.Server.Cookies
import Turbine.Base.Literals
import Turbine.Http.Injection
import Turbine.Base.Occurrences
import Turbine.Base.Quotes
import Turbine.Server.Include
import Turbine.Base.Json
import Turbine.Features.Logs
import Turbine.Features.LogFields
import Turbine.Features.Extraction
import Turbine.Features.Sendfile
import Turbine.Server.Postprocess
import Turbine.Server.Envelope
import Turbine.Http.FormCodec
import Turbine.Persistent.Vectored
import Turbine.Base.Ranks
import Turbine.Metrics.Histogram
import Turbine.Http.Accept
import Turbine.Server.Compression
import Turbine.Server.Outgoing
import Turbine.Base.JsonText
import Turbine.Base.JsonWeight
import Turbine.Metrics.Collector
import Turbine.Metrics.Status
import Turbine.Base.Duplex
import Turbine.Base.Fetch
import Turbine.Base.Sessions
import Turbine.Streaming.Fetching
import Turbine.Persistent.Exchange
import Turbine.WebSocket.Session
