import Mathlib.Tactic

/-!
# The data of a Raft server

The structures of `raft.go` and `persister.go`.  A cluster has `n` servers, named by `Fin n`; the
commands are of any type `C` (the source's `interface{}`, whose nil is `default`), and `σ` is what
the service puts into its snapshots.  Terms and raft indices are natural numbers; a position in the
slice `Logs` is an integer where the source computes one that may be negative.

Two kinds of fields are history variables, which the code never reads.  `Snapshot.covered` are the
log entries that a snapshot stands for, so that `Raft.logical` is the log of a server as if nothing
had ever been compacted; and a reply in flight keeps the logical log its sender had when it replied
(`Rpc.applyEntriesReply`, `Rpc.installSnapshotReply`).
-/

namespace RaftLabs

variable (n : ℕ) (C σ : Type)

/-- An entry of the log: a command and the term in which the leader received it. -/
structure LogEntry where
  command : C
  term : ℕ
  deriving DecidableEq, Repr

instance [Inhabited C] : Inhabited (LogEntry C) := ⟨⟨default, 0⟩⟩

/-- `FOLLOWER`, `CANDIDATE` and `LEADER`. -/
inductive Identity
  | follower | candidate | leader
  deriving DecidableEq, Repr

/-- `InvalidIndex`, the `XIndex` of a follower whose log is too short. -/
def invalidIndex : ℤ := -1

/-- The bytes of a snapshot: the index it was taken at, which both services encode first, and the
state of the service. -/
structure Snapshot where
  index : ℕ
  state : σ
  covered : List (LogEntry C)
  deriving DecidableEq

/-- What `persist` encodes. -/
structure RaftState where
  currentTerm : ℕ
  voteFor : Option (Fin n)
  logs : List (LogEntry C)
  deriving DecidableEq

/-- The stable storage of a server; `none` where nothing has been written. -/
structure Persister where
  raftstate : Option (RaftState n C)
  snapshot : Option (Snapshot C σ)
  deriving DecidableEq

/-- A Raft server.  `voteFor = none` is the source's `Unvote`; `votes t` is the counter of the
election this server kicked off in term `t`; the timers are left out, since they may fire at any
time. -/
structure Raft where
  me : Fin n
  currentTerm : ℕ
  identity : Identity
  voteFor : Option (Fin n)
  logs : List (LogEntry C)
  committedIndex : ℕ
  lastApplied : ℕ
  nextIndex : Fin n → ℕ
  matchIndex : Fin n → ℕ
  discardCount : ℕ
  snapshot : Option (Snapshot C σ)
  lastIncludedIndex : ℕ
  applySnappending : Bool
  votes : ℕ → ℕ
  persister : Persister n C σ

/-- A message on `applyCh`: a committed command, or a snapshot. -/
inductive ApplyMsg
  | command (command : C) (index : ℕ)
  | snapshot (data : Option (Snapshot C σ)) (term index : ℕ)
  deriving DecidableEq

structure RequestVoteArgs where
  term : ℕ
  candidateId : Fin n
  lastLogIndex : ℕ
  lastLogTerm : ℕ
  deriving DecidableEq

structure RequestVoteReply where
  term : ℕ
  voteGranted : Bool
  deriving DecidableEq

structure ApplyEntriesArgs where
  term : ℕ
  leaderId : Fin n
  prevLogIndex : ℕ
  prevLogTerm : ℕ
  entries : List (LogEntry C)
  leaderCommit : ℕ
  deriving DecidableEq

structure ApplyEntriesReply where
  term : ℕ
  success : Bool
  xTerm : ℕ := 0
  xIndex : ℤ := 0
  xLen : ℕ := 0
  deriving DecidableEq

structure InstallSnapshotArgs where
  term : ℕ
  leaderId : Fin n
  lastIncludedIndex : ℕ
  lastIncludedTerm : ℕ
  data : Option (Snapshot C σ)
  deriving DecidableEq

structure InstallSnapshotReply where
  term : ℕ
  deriving DecidableEq

/-- What travels between two servers: a request, or the reply to one together with the arguments
that the calling goroutine still holds. -/
inductive Rpc
  | requestVote (args : RequestVoteArgs n)
  | requestVoteReply (args : RequestVoteArgs n) (reply : RequestVoteReply)
      (log : List (LogEntry C))
  | applyEntries (args : ApplyEntriesArgs n C)
  | applyEntriesReply (args : ApplyEntriesArgs n C) (reply : ApplyEntriesReply)
      (log : List (LogEntry C))
  | installSnapshot (args : InstallSnapshotArgs n C σ)
  | installSnapshotReply (args : InstallSnapshotArgs n C σ) (reply : InstallSnapshotReply)
      (log : List (LogEntry C))
  deriving DecidableEq

variable {n C σ}

/-- The entries that the snapshot of a server stands for. -/
def coveredBy (snapshot : Option (Snapshot C σ)) : List (LogEntry C) :=
  (snapshot.map Snapshot.covered).getD []

namespace Raft

variable (rf : Raft n C σ)

/-- The log of a server as if nothing had been compacted: raft index `i` is position `i - 1`. -/
def logical : List (LogEntry C) := coveredBy rf.snapshot ++ rf.logs.tail

/-- `RealIndex`: the position in `Logs` of a raft index. -/
def realIndex (raftIndex : ℕ) : ℤ := (raftIndex : ℤ) - rf.discardCount

/-- `RaftIndex`: the raft index of a position in `Logs`. -/
def raftIndex (realIndex : ℕ) : ℕ := realIndex + rf.discardCount

/-- `rf.Logs[i]`; `none` where the source panics. -/
def entry (i : ℤ) : Option (LogEntry C) := if i < 0 then none else rf.logs[i.toNat]?

/-- `GetState`. -/
def getState : ℕ × Bool := (rf.currentTerm, rf.identity = .leader)

end Raft

end RaftLabs
