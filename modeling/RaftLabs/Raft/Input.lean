import RaftLabs.Raft.Server

/-!
# One server and everything it can be asked to do

`Input` lists the critical sections of a Raft server: the RPC handlers, the processing of replies,
the calls of the service and the timers.  `Raft.handle` runs one of them and returns, beside the new
state, the terms it reports in replies.  What is proved here holds for every argument, whether or
not some leader could have sent it.
-/

set_option linter.unusedSectionVars false

namespace RaftLabs

/-- A critical section of a server, with its arguments. -/
inductive Input (n : ℕ) (C σ : Type)
  | requestVote (args : RequestVoteArgs n)
  | requestVoteReply (args : RequestVoteArgs n) (reply : RequestVoteReply)
  | applyEntries (args : ApplyEntriesArgs n C)
  | applyEntriesReply (server : Fin n) (args : ApplyEntriesArgs n C) (reply : ApplyEntriesReply)
  | installSnapshot (args : InstallSnapshotArgs n C σ)
  | installSnapshotReply (server : Fin n) (args : InstallSnapshotArgs n C σ)
      (reply : InstallSnapshotReply)
  | electionTimeout
  | heartbeatTimeout
  | start (command : C)
  | callSnapshot (index : ℕ) (data : Snapshot C σ)
  | applyLog

variable {n : ℕ} {C σ : Type} [Inhabited C]

namespace Raft

variable (rf : Raft n C σ)

/-- The state after a critical section, and the terms it reports in its reply. -/
def handle : Input n C σ → Option (Raft n C σ × List ℕ)
  | .requestVote args => (rf.requestVote args).map fun r => (r.1, [r.2.term])
  | .requestVoteReply args reply => some (rf.requestVoteReply args reply, [])
  | .applyEntries args => (rf.applyEntries args).map fun r => (r.1, [r.2.term])
  | .applyEntriesReply server args reply =>
    (rf.sendApplyEntriesTo server args reply).map fun r => (r, [])
  | .installSnapshot args =>
    let r := rf.installSnapshot args
    some (r.1, [r.2.term])
  | .installSnapshotReply server args reply =>
    some (rf.sendInstallSnapshotTo server args reply, [])
  | .electionTimeout => rf.electionTimeout.map fun r => (r.1, [])
  | .heartbeatTimeout => rf.heartbeatTimeout.map fun _ => (rf, [])
  | .start command => (rf.start command).map fun r => (r.1, [])
  | .callSnapshot index data => some (rf.callSnapshot index data, [])
  | .applyLog => rf.applyLog.map fun r => (r.1, [])

/-- The term a restart would read back. -/
def stableTerm : ℕ := (rf.persister.raftstate.map RaftState.currentTerm).getD 0

/-- The vote a restart would read back. -/
def stableVote : Option (Fin n) := rf.persister.raftstate.bind RaftState.voteFor

/-- The log a restart would read back. -/
def stableLogs : List (LogEntry C) := (rf.persister.raftstate.map RaftState.logs).getD [default]

/-! ### The fields that the parts of the code leave alone -/

section Fields

variable {rf}

@[simp] lemma persist_currentTerm : rf.persist.currentTerm = rf.currentTerm := rfl
@[simp] lemma persist_voteFor : rf.persist.voteFor = rf.voteFor := rfl
@[simp] lemma persist_identity : rf.persist.identity = rf.identity := rfl
@[simp] lemma persist_me : rf.persist.me = rf.me := rfl
@[simp] lemma persist_logs : rf.persist.logs = rf.logs := rfl
@[simp] lemma persist_votes : rf.persist.votes = rf.votes := rfl
@[simp] lemma persist_snapshot : rf.persist.snapshot = rf.snapshot := rfl
@[simp] lemma persist_discardCount : rf.persist.discardCount = rf.discardCount := rfl
@[simp] lemma persist_lastIncludedIndex :
    rf.persist.lastIncludedIndex = rf.lastIncludedIndex := rfl
@[simp] lemma persist_committedIndex : rf.persist.committedIndex = rf.committedIndex := rfl
@[simp] lemma persist_lastApplied : rf.persist.lastApplied = rf.lastApplied := rfl
@[simp] lemma persist_stableTerm : rf.persist.stableTerm = rf.currentTerm := rfl
@[simp] lemma persist_stableVote : rf.persist.stableVote = rf.voteFor := rfl
@[simp] lemma persist_stableLogs : rf.persist.stableLogs = rf.logs := rfl

lemma followLeader_currentTerm (term : ℕ) :
    (rf.followLeader term).currentTerm = max rf.currentTerm term := by
  dsimp only [followLeader]
  split
  · rename_i h
    exact (max_eq_right (le_of_lt h)).symm
  · rename_i h
    exact (max_eq_left (not_lt.1 h)).symm

end Fields

end Raft

end RaftLabs
