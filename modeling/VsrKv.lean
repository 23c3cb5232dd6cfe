import VsrKv.Types
import VsrKv.LittleEndian
import VsrKv.Serialization
import VsrKv.ReplicaState
import VsrKv.Replica
import VsrKv.TransitionSystem
import VsrKv.MessageQueue
import VsrKv.Cluster
import VsrKv.Execution
import VsrKv.Actions
import VsrKv.ClusterStep
import VsrKv.Viewstamped.Promises
import VsrKv.Viewstamped.CatchUp
import VsrKv.Runs
import VsrKv.Tally
import VsrKv.Counting
import VsrKv.LogList
import VsrKv.Refinement
import VsrKv.Simulation.Normal
import VsrKv.Simulation.ViewChange
import VsrKv.Simulation.Recovery
import VsrKv.Simulation
import VsrKv.Agreement
import VsrKv.Recovery
import VsrKv.Silence
import VsrKv.Forgetful
import VsrKv.Restarts
import VsrKv.ViewLogs
import VsrKv.Waiting
import VsrKv.Queues
import VsrKv.InTime
import VsrKv.LateMessages
import VsrKv.ClientTable
import VsrKv.Replies
import VsrKv.DecidedLog
import VsrKv.Convergence
import VsrKv.Discipline
import VsrKv.Mail
import VsrKv.Quorums
import VsrKv.Bounds
import VsrKv.GapFree
import VsrKv.Commits
import VsrKv.OwnAcks
import VsrKv.Wire
import VsrKv.Framing
import VsrKv.ProtocolHandler
import VsrKv.FrameLimit
import VsrKv.Decimal
import VsrKv.TcpServer
import VsrKv.Client
import VsrKv.Selection
import VsrKv.LogSelection
import VsrKv.Words
import VsrKv.Assignments
import VsrKv.KeyValue
import VsrKv.Turns
import VsrKv.Submissions
import VsrKv.RequestOrder
import VsrKv.Linearizability
import VsrKv.History
import VsrKv.Durability
import VsrKv.NormalOperation
import VsrKv.PrepareOks
import VsrKv.Rebuilding
import VsrKv.Adoption
import VsrKv.FreshRecovery
import VsrKv.Connections
import VsrKv.Nonces
import VsrKv.PartialInverse
import VsrKv.ReplicaManager
import VsrKv.SocketTables
import VsrKv.PeerEvents
import VsrKv.Bookkeeping
import VsrKv.BoundedReads
import VsrKv.LogDecoder
import VsrKv.UndecodableVotes
import VsrKv.ClusterSize
import VsrKv.Stalled
import VsrKv.EventLoop
import VsrKv.PostedWork
import VsrKv.Wakeups
import VsrKv.ReplicaLoop
import VsrKv.Handling
import VsrKv.Ledger
import VsrKv.Availability
import VsrKv.NewView
import VsrKv.Failover
import VsrKv.ClientSession
import VsrKv.TcpClient
import VsrKv.KeepsConnecting
import VsrKv.ClientCallbacks
import VsrKv.ClientWrites
import VsrKv.ClientReads
