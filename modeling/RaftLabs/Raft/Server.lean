import RaftLabs.Raft.Basic

/-!
# The Raft server: what the code does

Every function of `raft.go` that runs under `rf.mu`, as a function of the state.  A handler returns
the new state with its reply; a function that ends in RPCs returns the calls its goroutines make.
`none` is a panic, either one the source writes out or an index outside of `Logs`.
-/

namespace RaftLabs

variable {n : ℕ} {C σ : Type} [Inhabited C]

namespace Raft

variable (rf : Raft n C σ)

/-! ### Stable storage -/

/-- `persist`. -/
def persist : Raft n C σ :=
  { rf with persister := ⟨some ⟨rf.currentTerm, rf.voteFor, rf.logs⟩, rf.snapshot⟩ }

/-- `readPersist`. -/
def readPersist : Option (RaftState n C) → Raft n C σ
  | none => rf
  | some data =>
    { rf with currentTerm := data.currentTerm, voteFor := data.voteFor, logs := data.logs }

/-- `readSnapShot`. -/
def readSnapShot : Option (Snapshot C σ) → Raft n C σ
  | none => rf
  | some data =>
    { rf with
      committedIndex := data.index
      lastApplied := data.index
      discardCount := data.index
      snapshot := some data
      lastIncludedIndex := data.index }

/-- `Make`: a server that starts, or restarts, from its stable storage. -/
def make (me : Fin n) (persister : Persister n C σ) : Raft n C σ :=
  let rf : Raft n C σ :=
    { me := me
      currentTerm := 0
      identity := .follower
      voteFor := none
      logs := [default]
      committedIndex := 0
      lastApplied := 0
      nextIndex := fun _ => 0
      matchIndex := fun _ => 0
      discardCount := 0
      snapshot := none
      lastIncludedIndex := 0
      applySnappending := false
      votes := fun _ => 0
      persister := persister }
  (rf.readPersist persister.raftstate).readSnapShot persister.snapshot

/-! ### Snapshots -/

/-- How many entries after slot `0` the new `lastIncludedIndex` covers. -/
def includedCount : ℕ :=
  ((List.range' 1 (rf.logs.length - 1)).takeWhile
    fun i => rf.raftIndex i ≤ rf.lastIncludedIndex).length

/-- `doSnapshot`: `lastIncludedIndex` is the new one, `DiscardCount` still the old. -/
def doSnapshot : Raft n C σ :=
  let rf := { rf with logs := rf.logs.drop rf.includedCount }
  let rf := { rf with discardCount := rf.lastIncludedIndex }
  rf.persist

/-- `Snapshot(index, snapshot)`, called by the service.  The entries up to `index` are the ones that
the snapshot stands for from now on. -/
def callSnapshot (index : ℕ) (data : Snapshot C σ) : Raft n C σ :=
  if index ≤ rf.lastIncludedIndex then rf
  else
    let covered := rf.logical.take index
    let rf := if rf.committedIndex ≤ index then { rf with committedIndex := index } else rf
    let rf := if rf.lastApplied ≤ index then { rf with lastApplied := index } else rf
    let rf := { rf with lastIncludedIndex := index }
    let rf := { rf with snapshot := some { data with covered := covered } }
    rf.doSnapshot

/-! ### Votes -/

/-- What `RequestVote` does first on a higher term. -/
def observe (term : ℕ) : Raft n C σ :=
  if rf.currentTerm < term then
    { rf with currentTerm := term, identity := .follower, voteFor := none }
  else rf

/-- `RequestVote`. -/
def requestVote (args : RequestVoteArgs n) : Option (Raft n C σ × RequestVoteReply) :=
  if args.term < rf.currentTerm ∨
      (args.term = rf.currentTerm ∧ rf.voteFor ≠ none ∧ rf.voteFor ≠ some args.candidateId) then
    some (rf.persist, ⟨rf.currentTerm, false⟩)
  else
    let rf := rf.observe args.term
    let realIndex := rf.logs.length - 1
    let lastLogIndex := rf.raftIndex realIndex
    (rf.entry realIndex).bind fun last =>
      if last.term < args.lastLogTerm ∨
          (args.lastLogTerm = last.term ∧ lastLogIndex ≤ args.lastLogIndex) then
        some (({ rf with
          currentTerm := args.term
          identity := .follower
          voteFor := some args.candidateId }).persist, ⟨rf.currentTerm, true⟩)
      else some (rf.persist, ⟨rf.currentTerm, false⟩)

/-- What every reply handler does on a higher term. -/
def stepDown (term : ℕ) : Raft n C σ :=
  ({ rf with currentTerm := term, identity := .follower, voteFor := none }).persist

/-- The calls that `kickOffNewElection` makes. -/
def kickOffNewElection : Option (Raft n C σ × List (Fin n × Rpc n C σ)) :=
  (rf.entry ((rf.logs.length : ℤ) - 1)).map fun last =>
    let args : RequestVoteArgs n :=
      ⟨rf.currentTerm, rf.me, rf.raftIndex (rf.logs.length - 1), last.term⟩
    ({ rf with votes := Function.update rf.votes rf.currentTerm 1 },
      ((List.finRange n).filter (· ≠ rf.me)).map fun i => (i, .requestVote args))

/-- `ticker`, when the election timer fires. -/
def electionTimeout : Option (Raft n C σ × List (Fin n × Rpc n C σ)) :=
  if rf.identity = .leader then some (rf, [])
  else
    let rf := { rf with
      currentTerm := rf.currentTerm + 1
      identity := .candidate
      voteFor := some rf.me }
    rf.persist.kickOffNewElection

/-- What the goroutines of `kickOffNewElection` do with a reply. -/
def requestVoteReply (args : RequestVoteArgs n) (reply : RequestVoteReply) : Raft n C σ :=
  if reply.term < rf.currentTerm then rf
  else if rf.currentTerm < reply.term then rf.stepDown reply.term
  else if reply.voteGranted then
    let rf := { rf with votes := Function.update rf.votes args.term (rf.votes args.term + 1) }
    if n < rf.votes args.term * 2 ∧ reply.term = rf.currentTerm ∧ rf.identity = .candidate then
      { rf with
        identity := .leader
        nextIndex := fun _ => rf.raftIndex rf.logs.length
        matchIndex := fun _ => 0 }
    else rf
  else rf

/-! ### Searching the log -/

/-- The loop of `findFirstIndex`; the interval shrinks at every turn, so `fuel` is its length. -/
def findFirstLoop (logs : List (LogEntry C)) (term : ℕ) : ℕ → ℕ → ℕ → ℕ
  | 0, _, high => high
  | fuel + 1, low, high =>
    if low < high then
      let mid := (low + high) / 2
      if term ≤ (logs.getD mid default).term then findFirstLoop logs term fuel low mid
      else findFirstLoop logs term fuel (mid + 1) high
    else high

/-- `findFirstIndex`: the position of the first entry of a term `≥ term`, or `len(Logs)`. -/
def findFirstIndex (term : ℕ) : Option ℕ :=
  let high := findFirstLoop rf.logs term rf.logs.length 0 (rf.logs.length - 1)
  (rf.entry high).map fun e => if e.term < term then rf.logs.length else high

/-! ### Replication, on the follower -/

/-- `ReplicateCheck`. -/
def replicateCheck (args : ApplyEntriesArgs n C) : Option Bool :=
  let prevIndex := rf.realIndex args.prevLogIndex
  if prevIndex < 0 then some false
  else if prevIndex = 0 then
    if rf.lastIncludedIndex = args.prevLogIndex then
      (rf.entry prevIndex).map fun e => e.term = args.prevLogTerm
    else some false
  else if prevIndex < rf.logs.length then
    (rf.entry prevIndex).map fun e => e.term = args.prevLogTerm
  else some false

/-- The loop of `ApplyEntries` that drops everything from the first conflicting entry on. -/
def dropConflict (logs : List (LogEntry C)) (start : ℕ) : List (LogEntry C) → List (LogEntry C)
  | [] => logs
  | e :: es =>
    if start < logs.length then
      if (logs.getD start default).term ≠ e.term then logs.take start
      else dropConflict logs (start + 1) es
    else logs

/-- The loop of `ApplyEntries` that copies the entries, appending or overwriting. -/
def copyEntries (logs : List (LogEntry C)) (start : ℕ) : List (LogEntry C) → List (LogEntry C)
  | [] => logs
  | e :: es =>
    copyEntries (if logs.length ≤ start then logs ++ [e] else logs.set start e) (start + 1) es

/-- The part of `ApplyEntries` after a passed check. -/
def acceptEntries (args : ApplyEntriesArgs n C) : Raft n C σ :=
  if args.entries ≠ [] then
    let raftindex := args.prevLogIndex + 1
    let start := (rf.realIndex raftindex).toNat
    let logs := copyEntries (dropConflict rf.logs start args.entries) start args.entries
    let rf := { rf with logs := logs }
    if rf.committedIndex < args.leaderCommit then
      { rf with committedIndex :=
          if raftindex < args.leaderCommit then raftindex else args.leaderCommit }
    else rf
  else
    let lastLogIndex := rf.raftIndex (rf.logs.length - 1)
    if rf.committedIndex < args.leaderCommit then
      { rf with committedIndex :=
          if lastLogIndex ≤ args.leaderCommit then lastLogIndex else args.leaderCommit }
    else rf

/-- The reply of `ApplyEntries` to a failed check. -/
def rejectEntries (args : ApplyEntriesArgs n C) : Option ApplyEntriesReply :=
  let prevIndex := rf.realIndex args.prevLogIndex
  if prevIndex < 0 then some { term := rf.currentTerm, success := true }
  else if (rf.logs.length : ℤ) ≤ prevIndex then
    some { term := rf.currentTerm, success := false, xIndex := invalidIndex,
           xLen := rf.raftIndex rf.logs.length }
  else
    (rf.entry prevIndex).bind fun e =>
    (rf.findFirstIndex e.term).bind fun index =>
      -- panic("rf.findFirstIndex: error!")
      if rf.logs.length ≤ index ∨ (rf.entry index).map LogEntry.term ≠ some e.term then none
      else some { term := rf.currentTerm, success := false, xTerm := e.term,
                  xIndex := rf.raftIndex index, xLen := rf.raftIndex rf.logs.length }

/-- What `ApplyEntries` and `InstallSnapshot` do first with a message of a current leader. -/
def followLeader (term : ℕ) : Raft n C σ :=
  let rf := { rf with identity := .follower }
  if rf.currentTerm < term then { rf with currentTerm := term, voteFor := none } else rf

/-- `ApplyEntries`. -/
def applyEntries (args : ApplyEntriesArgs n C) : Option (Raft n C σ × ApplyEntriesReply) :=
  if args.term < rf.currentTerm then
    some (rf.persist, { term := rf.currentTerm, success := false })
  else
    let rf := rf.followLeader args.term
    (rf.replicateCheck args).bind fun passed =>
      if passed then
        some ((rf.acceptEntries args).persist, { term := rf.currentTerm, success := true })
      else (rf.rejectEntries args).map fun reply => (rf.persist, reply)

/-- The part of `InstallSnapshot` for a snapshot that is ahead of the server's own. -/
def takeSnapshot (args : InstallSnapshotArgs n C σ) : Raft n C σ :=
  let rf := { rf with lastIncludedIndex := args.lastIncludedIndex, snapshot := args.data }
  let realIndex := rf.realIndex args.lastIncludedIndex
  let rf :=
    if 0 < realIndex ∧ realIndex < rf.logs.length ∧
        (rf.entry realIndex).map LogEntry.term = some args.lastIncludedTerm then rf
    else { rf with logs := [⟨default, args.lastIncludedTerm⟩] }
  { rf.doSnapshot with applySnappending := true }

/-- `InstallSnapshot`. -/
def installSnapshot (args : InstallSnapshotArgs n C σ) : Raft n C σ × InstallSnapshotReply :=
  if args.term < rf.currentTerm then (rf, ⟨rf.currentTerm⟩)
  else
    let rf := rf.followLeader args.term
    if args.lastIncludedIndex ≤ rf.lastIncludedIndex then (rf, ⟨rf.currentTerm⟩)
    else (rf.takeSnapshot args, ⟨rf.currentTerm⟩)

/-! ### Replication, on the leader -/

/-- The call that `sendHeartBeat` makes to server `i`. -/
def heartBeatTo (i : Fin n) : Option (Rpc n C σ) :=
  if rf.nextIndex i ≤ rf.lastIncludedIndex then
    (rf.entry 0).map fun e =>
      .installSnapshot ⟨rf.currentTerm, rf.me, rf.lastIncludedIndex, e.term, rf.snapshot⟩
  else
    let lastLogIndex := rf.raftIndex (rf.logs.length - 1)
    if rf.nextIndex i ≤ lastLogIndex then
      let raftIndex := rf.nextIndex i
      -- panic("nextIndex[i] == 0") and panic("realPrevIndex < 0")
      if raftIndex = 0 ∨ rf.realIndex (raftIndex - 1) < 0 then none
      else
        (rf.entry (rf.realIndex (raftIndex - 1))).map fun e =>
          .applyEntries ⟨rf.currentTerm, rf.me, raftIndex - 1, e.term,
            rf.logs.drop (rf.realIndex raftIndex).toNat, rf.committedIndex⟩
    else
      (rf.entry (rf.realIndex lastLogIndex)).map fun e =>
        .applyEntries ⟨rf.currentTerm, rf.me, lastLogIndex, e.term, [], rf.committedIndex⟩

/-- `sendHeartBeat`. -/
def sendHeartBeat : Option (List (Fin n × Rpc n C σ)) :=
  ((List.finRange n).filter (· ≠ rf.me)).mapM fun i => (rf.heartBeatTo i).map fun rpc => (i, rpc)

/-- `ticker`, when the heartbeat timer fires. -/
def heartbeatTimeout : Option (List (Fin n × Rpc n C σ)) :=
  if rf.identity = .leader then rf.sendHeartBeat else some []

/-- `Start`: the index and the term of the command, if this server is the leader, and the calls. -/
def start (command : C) : Option (Raft n C σ × Option (ℕ × ℕ) × List (Fin n × Rpc n C σ)) :=
  if rf.identity = .leader then
    let index := rf.raftIndex rf.logs.length
    let rf : Raft n C σ := { rf with logs := rf.logs ++ [⟨command, rf.currentTerm⟩] }
    rf.persist.sendHeartBeat.map fun calls => (rf.persist, some (index, rf.currentTerm), calls)
  else some (rf, none, [])

/-- The loop of `updateCommittedIndex` over the peers, from the count `cnt` on. -/
def replicatedLoop (index : ℕ) : List (Fin n) → ℕ → Bool
  | [], _ => false
  | j :: js, cnt =>
    if j = rf.me then replicatedLoop index js cnt
    else if index ≤ rf.matchIndex j then
      if n - (cnt + 1) < cnt + 1 then true else replicatedLoop index js (cnt + 1)
    else replicatedLoop index js cnt

/-- The loop of `updateCommittedIndex` over the positions, downwards from `N`. -/
def commitLoop (low : ℕ) : ℕ → ℕ
  | 0 =>
    if low ≤ 0 ∧ rf.committedIndex < rf.raftIndex 0 ∧
        rf.replicatedLoop (rf.raftIndex 0) (List.finRange n) 1 then rf.raftIndex 0
    else rf.committedIndex
  | N + 1 =>
    if low ≤ N + 1 ∧ rf.committedIndex < rf.raftIndex (N + 1) then
      if rf.replicatedLoop (rf.raftIndex (N + 1)) (List.finRange n) 1 then rf.raftIndex (N + 1)
      else commitLoop low N
    else rf.committedIndex

/-- `updateCommittedIndex`. -/
def updateCommittedIndex : Option (Raft n C σ) :=
  (rf.findFirstIndex rf.currentTerm).bind fun low =>
    if low = rf.logs.length ∨ (rf.entry low).map LogEntry.term ≠ some rf.currentTerm then some rf
    else
      (rf.findFirstIndex (rf.currentTerm + 1)).bind fun high =>
        -- panic("updateCommittedIndex(): low, high")
        if high ≤ low ∨ (rf.entry (high - 1)).map LogEntry.term ≠ some rf.currentTerm then none
        else some { rf with committedIndex := rf.commitLoop low (high - 1) }

/-- The index from which `sendApplyEntriesTo` tries again after a failed check. -/
def backUp (reply : ApplyEntriesReply) : Option ℕ :=
  if reply.xIndex = invalidIndex then some reply.xLen
  else
    (rf.findFirstIndex reply.xTerm).bind fun index =>
      if index = rf.logs.length ∨ (rf.entry index).map LogEntry.term ≠ some reply.xTerm then
        some reply.xIndex.toNat
      else
        (rf.findFirstIndex (reply.xTerm + 1)).bind fun index2 =>
          -- panic("rf.Logs[index2 - 1].Term != reply.XTerm")
          if (rf.entry (index2 - 1)).map LogEntry.term ≠ some reply.xTerm then none
          else some (rf.raftIndex (index2 - 1))

/-- What `sendApplyEntriesTo` does with a reply. -/
def sendApplyEntriesTo (server : Fin n) (args : ApplyEntriesArgs n C)
    (reply : ApplyEntriesReply) : Option (Raft n C σ) :=
  if reply.term < rf.currentTerm then some rf
  else if reply.success = false then
    if args.term < reply.term then
      if rf.currentTerm < reply.term then some (rf.stepDown reply.term) else some rf
    else
      (rf.backUp reply).map fun index =>
        { rf with nextIndex := Function.update rf.nextIndex server index }
  else if args.entries ≠ [] ∧ args.prevLogIndex + 1 = rf.nextIndex server then
    let matched := args.prevLogIndex + 1 + args.entries.length - 1
    { rf with
      matchIndex := Function.update rf.matchIndex server matched
      nextIndex := Function.update rf.nextIndex server (matched + 1) }.updateCommittedIndex
  else some rf

/-- What `sendInstallSnapshotTo` does with a reply. -/
def sendInstallSnapshotTo (server : Fin n) (args : InstallSnapshotArgs n C σ)
    (reply : InstallSnapshotReply) : Raft n C σ :=
  if reply.term < rf.currentTerm then rf
  else if rf.currentTerm < reply.term then rf.stepDown reply.term
  else
    let index := args.lastIncludedIndex
    if rf.matchIndex server ≤ index then
      { rf with
        matchIndex := Function.update rf.matchIndex server index
        nextIndex := Function.update rf.nextIndex server (index + 1) }
    else rf

/-! ### Delivering to the service -/

/-- The commands that `applyLog` collects, for the raft indices from `index` on. -/
def commandMsgs : ℕ → ℕ → Option (List (ApplyMsg C σ))
  | _, 0 => some []
  | index, count + 1 =>
    (rf.entry (rf.realIndex index)).bind fun e =>
    (commandMsgs (index + 1) count).map fun msgs => .command e.command index :: msgs

/-- One turn of `applyLog` under the lock: the messages it will send.  Not possible while there is
nothing to apply, since the goroutine waits. -/
def applyLog : Option (Raft n C σ × List (ApplyMsg C σ)) :=
  if rf.committedIndex ≤ rf.lastApplied ∧ rf.applySnappending = false then none
  else
    let snap : Option (List (ApplyMsg C σ)) :=
      if rf.applySnappending then
        (rf.entry 0).map fun e => [.snapshot rf.snapshot e.term rf.lastIncludedIndex]
      else some []
    snap.bind fun snap =>
      let rf := { rf with applySnappending := false }
      if rf.lastApplied < rf.committedIndex then
        let lastApplied :=
          if rf.lastApplied < rf.lastIncludedIndex then rf.lastIncludedIndex else rf.lastApplied
        (rf.commandMsgs (lastApplied + 1) (rf.committedIndex - lastApplied)).map fun msgs =>
          ({ rf with lastApplied := max lastApplied rf.committedIndex }, snap ++ msgs)
      else some (rf, snap)

end Raft

end RaftLabs
