import MiniPush.Basic
import MiniPush.Cluster.Announce
import MiniPush.Cluster.Backoff
import MiniPush.Cluster.Broadcast
import MiniPush.Cluster.Cache
import MiniPush.Cluster.CacheLoss
import MiniPush.Cluster.CacheTrail
import MiniPush.Cluster.Delivery
import MiniPush.Cluster.Equivalence
import MiniPush.Cluster.ExactlyOnce
import MiniPush.Cluster.FlowControl
import MiniPush.Cluster.Follower
import MiniPush.Cluster.FollowerRelay
import MiniPush.Cluster.FollowerShutdown
import MiniPush.Cluster.Frequency
import MiniPush.Cluster.Growth
import MiniPush.Cluster.HeadOfLine
import MiniPush.Cluster.Kafka
import MiniPush.Cluster.KickoffExpiry
import MiniPush.Cluster.KickoffRouting
import MiniPush.Cluster.KickoffSpares
import MiniPush.Cluster.KickoffTold
import MiniPush.Cluster.LeaderShutdown
import MiniPush.Cluster.LiveHubs
import MiniPush.Cluster.Progress
import MiniPush.Cluster.Push
import MiniPush.Cluster.Retention
import MiniPush.Cluster.Route
import MiniPush.Cluster.Savable
import MiniPush.Cluster.Server
import MiniPush.Cluster.SessionQuota
import MiniPush.Cluster.SessionSpec
import MiniPush.Cluster.SessionStore
import MiniPush.Cluster.Standalone
import MiniPush.Cluster.Storage
import MiniPush.Cluster.StreamClash
import MiniPush.Cluster.StreamSend
import MiniPush.Cluster.Workers
import MiniPush.Flags
import MiniPush.Foundation.Assoc
import MiniPush.Foundation.Base64
import MiniPush.Foundation.Bits
import MiniPush.Foundation.Fifo
import MiniPush.Foundation.Mutex
import MiniPush.Foundation.Rounding
import MiniPush.Foundation.Sorting
import MiniPush.Foundation.Spacing
import MiniPush.Foundation.Table
import MiniPush.Foundation.Transaction
import MiniPush.Foundation.Transition
import MiniPush.Foundation.TwoRuns
import MiniPush.Foundation.WaitGroup
import MiniPush.Store.Account
import MiniPush.Store.Allocation
import MiniPush.Store.Atomicity
import MiniPush.Store.Bitmap
import MiniPush.Store.Blocks
import MiniPush.Store.Concurrent
import MiniPush.Store.Database
import MiniPush.Store.DateTime
import MiniPush.Store.Event
import MiniPush.Store.Filling
import MiniPush.Store.GetEvents
import MiniPush.Store.History
import MiniPush.Store.Isolation
import MiniPush.Store.Ranges
import MiniPush.Store.ReadBack
import MiniPush.Store.ReadOnce
import MiniPush.Store.ReadStates
import MiniPush.Store.RoundTrip
import MiniPush.Store.RowLock
import MiniPush.Store.SaveSpec
import MiniPush.Store.Sequence
import MiniPush.Store.Stats
import MiniPush.Store.Truncation
import MiniPush.Store.Visibility
import MiniPush.Ws.Agreement
import MiniPush.Ws.Clinch
import MiniPush.Ws.CloseAll
import MiniPush.Ws.CloseProtocol
import MiniPush.Ws.CloseSafety
import MiniPush.Ws.CloseSteps
import MiniPush.Ws.ClosedChannel
import MiniPush.Ws.Deadlock
import MiniPush.Ws.DemoClient
import MiniPush.Ws.EventApi
import MiniPush.Ws.HandlerLocks
import MiniPush.Ws.HandlerRun
import MiniPush.Ws.HandlerSpec
import MiniPush.Ws.Heartbeat
import MiniPush.Ws.Hub
import MiniPush.Ws.HubLockSteps
import MiniPush.Ws.HubLocks
import MiniPush.Ws.Ledger
import MiniPush.Ws.LockRefines
import MiniPush.Ws.LockTasks
import MiniPush.Ws.LockView
import MiniPush.Ws.OneWriter
import MiniPush.Ws.Opening
import MiniPush.Ws.Pipeline
import MiniPush.Ws.Posting
import MiniPush.Ws.Privacy
import MiniPush.Ws.Readable
import MiniPush.Ws.Requests
import MiniPush.Ws.SenderGone
import MiniPush.Ws.SessionRefines
import MiniPush.Ws.SessionView
import MiniPush.Ws.SlowSession
import MiniPush.Ws.StandaloneRun
import MiniPush.Ws.StandaloneShutdown
import MiniPush.Ws.StandaloneSpec
import MiniPush.Ws.Startup
import MiniPush.Ws.Traffic
import MiniPush.Ws.Wedge
