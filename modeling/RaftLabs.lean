import RaftLabs.Agreement
import RaftLabs.Backing
import RaftLabs.Clerk
import RaftLabs.Host
import RaftLabs.KvRaft.Deployment
import RaftLabs.KvRaft.Linearizable
import RaftLabs.KvRaft.Server
import RaftLabs.KvRaft.System
import RaftLabs.KvSrv.Linearizable
import RaftLabs.KvSrv.System
import RaftLabs.Lib.Balance
import RaftLabs.Lib.GoString
import RaftLabs.Lib.Grouping
import RaftLabs.Lib.Handover
import RaftLabs.Lib.LeaderLogs
import RaftLabs.Lib.Linearizable
import RaftLabs.Lib.Links
import RaftLabs.Lib.Pool
import RaftLabs.Lib.Ranging
import RaftLabs.Lib.Search
import RaftLabs.Lib.Session
import RaftLabs.Lib.Trace
import RaftLabs.MapReduce.Completion
import RaftLabs.MapReduce.Coordinator
import RaftLabs.MapReduce.Distributed
import RaftLabs.MapReduce.EndToEnd
import RaftLabs.MapReduce.Fencing
import RaftLabs.MapReduce.Finish
import RaftLabs.MapReduce.Outputs
import RaftLabs.MapReduce.Sequential
import RaftLabs.MapReduce.Solo
import RaftLabs.MapReduce.TaskTable
import RaftLabs.MapReduce.Worker
import RaftLabs.MapReduce.WorkerFiles
import RaftLabs.Porcupine.Checker
import RaftLabs.Porcupine.Entries
import RaftLabs.Porcupine.InStep
import RaftLabs.Porcupine.Kv
import RaftLabs.Porcupine.Operations
import RaftLabs.Porcupine.Points
import RaftLabs.Porcupine.Tester
import RaftLabs.Raft.ApplyStream
import RaftLabs.Raft.Backup
import RaftLabs.Raft.Ballot
import RaftLabs.Raft.Basic
import RaftLabs.Raft.Cases
import RaftLabs.Raft.Cluster
import RaftLabs.Raft.Commit
import RaftLabs.Raft.Compaction
import RaftLabs.Raft.Counters
import RaftLabs.Raft.Election
import RaftLabs.Raft.FollowerCommit
import RaftLabs.Raft.Input
import RaftLabs.Raft.Leadership
import RaftLabs.Raft.Log
import RaftLabs.Raft.LogMatching
import RaftLabs.Raft.Mesh
import RaftLabs.Raft.Replication
import RaftLabs.Raft.Safety
import RaftLabs.Raft.Search
import RaftLabs.Raft.Server
import RaftLabs.Raft.SnapshotMap
import RaftLabs.Raft.Stability
import RaftLabs.Raft.StateMachine
import RaftLabs.Raft.Terms
import RaftLabs.Raft.Turns
import RaftLabs.Raft.Validity
import RaftLabs.Rebuild
import RaftLabs.Replicas
import RaftLabs.ShardCtrler.Balance
import RaftLabs.ShardCtrler.Deployment
import RaftLabs.ShardCtrler.History
import RaftLabs.ShardCtrler.Replicas
import RaftLabs.ShardCtrler.Server
import RaftLabs.ShardCtrler.Service
import RaftLabs.ShardKv.Deployment
import RaftLabs.ShardKv.Group
import RaftLabs.ShardKv.Handlers
import RaftLabs.ShardKv.Linearizable
import RaftLabs.ShardKv.Ownership
import RaftLabs.ShardKv.Pending
import RaftLabs.ShardKv.Replay
import RaftLabs.ShardKv.Server
import RaftLabs.ShardKv.Sound
import RaftLabs.ShardKv.Stack
import RaftLabs.ShardKv.System
