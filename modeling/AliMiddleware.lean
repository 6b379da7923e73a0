import AliMiddleware.Support.Runs
import AliMiddleware.Support.ReadModifyWrite
import AliMiddleware.Support.Outcome
import AliMiddleware.Support.Links
import AliMiddleware.Support.Bytes
import AliMiddleware.Support.Replace
import AliMiddleware.Support.Utf8
import AliMiddleware.Support.PercentEncoding
import AliMiddleware.Support.Json
import AliMiddleware.Support.Streams
import AliMiddleware.Support.Tickets
import AliMiddleware.Lib.TraceableList
import AliMiddleware.Lib.ListRefinement
import AliMiddleware.Lib.ListRuns
import AliMiddleware.Lib.ListAttempts
import AliMiddleware.Lib.ListIterators
import AliMiddleware.Lib.Pool
import AliMiddleware.Lib.PoolInvariant
import AliMiddleware.Lib.FailedRelease
import AliMiddleware.Lib.BlockingPool
import AliMiddleware.Lib.BlockingWakeups
import AliMiddleware.Lib.CoroPool
import AliMiddleware.Lib.CoroWakeups
import AliMiddleware.Lib.SerialWakeups
import AliMiddleware.Lib.PoolSafety
import AliMiddleware.Lib.PoolDemand
import AliMiddleware.Lib.FilledPool
import AliMiddleware.Lib.OneThread
import AliMiddleware.Lib.PooledDrain
import AliMiddleware.Lib.PooledCalls
import AliMiddleware.Lib.DubboPayload
import AliMiddleware.Lib.JsonSerializer
import AliMiddleware.Lib.DubboClient
import AliMiddleware.Lib.DubboFrame
import AliMiddleware.Lib.DubboRequests
import AliMiddleware.Lib.DubboReplies
import AliMiddleware.Lib.DubboAnswers
import AliMiddleware.Lib.CallRule
import AliMiddleware.Lib.DubboServer
import AliMiddleware.Lib.DubboDrain
import AliMiddleware.Agent.EtcdService
import AliMiddleware.Agent.ProviderSelector
import AliMiddleware.Agent.RoundRobin
import AliMiddleware.Agent.Overload
import AliMiddleware.Agent.Form
import AliMiddleware.Agent.FormMeaning
import AliMiddleware.Agent.FormEncoding
import AliMiddleware.Agent.Hop
import AliMiddleware.Agent.HopRuns
import AliMiddleware.Agent.Session
import AliMiddleware.Agent.ConsumerSession
import AliMiddleware.Agent.ProviderInfo
import AliMiddleware.Agent.Reuse
import AliMiddleware.Agent.HopService
import AliMiddleware.Agent.System
import AliMiddleware.Agent.Front
import AliMiddleware.Lib.SyncRequest
import AliMiddleware.Lib.SerialDrain
import AliMiddleware.Lib.ListDestructor
import AliMiddleware.Lib.RequestIds
import AliMiddleware.Agent.Survival
import AliMiddleware.Agent.Deployment
import AliMiddleware.Agent.HandleRequest
