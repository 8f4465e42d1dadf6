import Shs.Lib.LineStream
import Shs.Lib.Run
import Shs.Lib.StableInsert
import Shs.Lib.Chain
import Shs.Lib.Ring
import Shs.Lib.RedBlack
import Shs.Lib.Region
import Shs.Lib.Tiling
import Shs.Lib.Rotor
import Shs.Lib.Records
import Shs.Lib.Rewrite
import Shs.Lib.TreeMap
import Shs.Core.Bytes
import Shs.Core.Buffer
import Shs.Core.Decimal
import Shs.Core.Base64
import Shs.Core.EscapeUri
import Shs.Http.Request
import Shs.Http.Read
import Shs.Http.Serialize
import Shs.Http.World
import Shs.Http.Handlers
import Shs.Http.Message
import Shs.Http.Output
import Shs.Http.Bounds
import Shs.Http.Fields
import Shs.Downstream.Request
import Shs.Loop
import Shs.Http.Head
import Shs.Http.Receive
import Shs.Http.Segmentation
import Shs.Http.Body
import Shs.Http.Verdict
import Shs.Http.Complete
import Shs.Incoming.Machine
import Shs.Incoming.Simulation
import Shs.Incoming.Moves
import Shs.Incoming.Dispatch
import Shs.Incoming.Lifecycle
import Shs.Incoming.Writable
import Shs.Incoming.Whole
import Shs.Outgoing.Stock
import Shs.Outgoing.Attempt
import Shs.Outgoing.Events
import Shs.Outgoing.Call
import Shs.System
import Shs.Framework.Invoke
import Shs.Framework.Status
import Shs.Framework.Watcher
import Shs.Framework.Dispatch
import Shs.Framework.Worker
import Shs.Framework.Balance
import Shs.Core.ConnPool
import Shs.Core.Queue
import Shs.Core.Epoll
import Shs.Core.Posted
import Shs.Core.RbTree
import Shs.Core.RbShape
import Shs.Core.RbInsert
import Shs.Core.RbDelete
import Shs.Core.RbRuns
import Shs.Core.EventTimer
import Shs.Core.Math
import Shs.Core.Slabs
import Shs.Core.SlabClass
import Shs.Core.SlabBooks
import Shs.Core.SlabMoves
import Shs.Core.SlabRuns
import Shs.Core.SlabRecovery
import Shs.Core.SlabRelease
import Shs.Core.SlabClsid
import Shs.Core.Shmem
import Shs.Core.ShmemClass
import Shs.Core.ShmemLists
import Shs.Core.ShmemInv
import Shs.Core.ShmemFree
import Shs.Core.ShmemAlloc
import Shs.Core.ShmemRuns
import Shs.Core.ShmemCalls
import Shs.Process.Reap
import Shs.Downstream.HostGroup
import Shs.Downstream.Ring
import Shs.Downstream.HostGroupProvider
import Shs.Http.Uri
import Shs.Http.Route
import Shs.Downstream.RequestUri
import Shs.Http.Lookup
import Shs.Http.SetCookie
import Shs.Http.InvokeReply
import Shs.Http.Section
import Shs.Http.Folding
import Shs.Http.Inject
import Shs.Http.Generated
import Shs.Http.KeepAlive
import Shs.Http.Delivered
import Shs.Http.RoundTrip
import Shs.Downstream.RoundTrip
import Shs.Core.HashTable
import Shs.Core.HashFunctions
import Shs.Core.Mblks
import Shs.Process.Channels
import Shs.Process.GetStatus
import Shs.Process.Supervisor
import Shs.Process.SupervisorSteps
import Shs.Process.Children
import Shs.Process.Shutdown
import Shs.Process.Reload
import Shs.Process.QueueStatus
import Shs.Process.Inherited
import Shs.Core.Heap
import Shs.Core.MemoryPool
import Shs.Core.PoolRecursion
import Shs.Core.PoolReset
import Shs.Core.HalfLife
import Shs.Core.ArrayInherit
import Shs.Core.Chains
import Shs.Core.Writev
import Shs.Core.QueueSort
import Shs.Lib.Calendar
import Shs.Core.GmTime
import Shs.Core.ParseNumber
import Shs.Core.Utf8
import Shs.Core.Utf8Scan
import Shs.Lib.Scan
import Shs.Core.StringSearch
import Shs.Core.Format
import Shs.Lib.TrialDivision
import Shs.Core.FindPrime
import Shs.Lib.Memory
import Shs.Core.LogTime
import Shs.Log.Stream
import Shs.Core.PoolGiven
import Shs.Core.ArrayPush
import Shs.Lib.Feistel
import Shs.Core.Des
import Shs.Core.DesRounds
import Shs.Core.DesKeys
import Shs.Lib.Bisect
import Shs.Core.DesWeak
import Shs.Lib.SpinLock
import Shs.Core.ConnPoolLock
import Shs.Http.Framing
import Shs.Downstream.Framing
