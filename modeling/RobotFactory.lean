import RobotFactory.TransitionSystem
import RobotFactory.Batching
import RobotFactory.Data
import RobotFactory.CommitLog
import RobotFactory.Crc32
import RobotFactory.Server
import RobotFactory.Replication
import RobotFactory.Handling
import RobotFactory.Inversion
import RobotFactory.Exchange
import RobotFactory.Primary
import RobotFactory.Startup
import RobotFactory.Lockstep
import RobotFactory.Failover
import RobotFactory.Acknowledgement
import RobotFactory.Immutability
import RobotFactory.CommittedReplay
import RobotFactory.LogIndices
import RobotFactory.WriteAheadMirror
import RobotFactory.LogWriting
import RobotFactory.LogRoundTrip
import RobotFactory.LogDurability
import RobotFactory.LogSessions
import RobotFactory.Restart
import RobotFactory.Engineers
import RobotFactory.Pairing
import RobotFactory.Reads
import RobotFactory.LoggedOnce
import RobotFactory.Convergence
import RobotFactory.Mutexes
import RobotFactory.Deadlock
import RobotFactory.LoadBalancer
import RobotFactory.MasterChoice
import RobotFactory.OrderForwarding
import RobotFactory.Replies
import RobotFactory.WorkerSelection
import RobotFactory.Rotation
import RobotFactory.SessionBalance
import RobotFactory.ReplyStream
import RobotFactory.MissingMaster
import RobotFactory.Heartbeat
import RobotFactory.ConfiguredWorkers
import RobotFactory.RecoveryExchange
import RobotFactory.StartupReplay
import RobotFactory.Fragmentation
import RobotFactory.ServerMessages
import RobotFactory.Marshalling
import RobotFactory.SocketLoops
import RobotFactory.StubExchanges
import RobotFactory.Linearization
import RobotFactory.Service
import RobotFactory.Customers
import RobotFactory.CustomerOrders
import RobotFactory.ClientRun
import RobotFactory.AdminProgress
import RobotFactory.ClientProgress
import RobotFactory.Rejoin
import RobotFactory.BackupRecovery
import RobotFactory.Channels
import RobotFactory.AtomicExchange
import RobotFactory.LostBackup
import RobotFactory.CommandLine
import RobotFactory.Deployment
import RobotFactory.FirstMaster
import RobotFactory.Transparency
import RobotFactory.BalancedReads
