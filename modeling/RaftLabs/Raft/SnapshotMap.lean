import RaftLabs.Raft.Server

/-!
# Raft does not look into snapshots

What a service puts into its snapshots is for Raft a sequence of bytes that it stores, sends and
hands back.  So a function `f` on these bytes commutes with everything the server does: whether the
bytes are replaced before a critical section or after it makes no difference.

This is what allows it to talk about a server whose snapshots carry, beside the bytes of the service,
the commands that they stand for: forgetting one or the other leads to a server that runs the same
code.
-/

set_option linter.unusedSectionVars false

namespace RaftLabs

variable {n : ℕ} {C σ τ : Type}

/-! ### Replacing the bytes -/

def Snapshot.map (f : σ → τ) (d : Snapshot C σ) : Snapshot C τ := ⟨d.index, f d.state, d.covered⟩

def Persister.map (f : σ → τ) (p : Persister n C σ) : Persister n C τ :=
  ⟨p.raftstate, p.snapshot.map (Snapshot.map f)⟩

def ApplyMsg.map (f : σ → τ) : ApplyMsg C σ → ApplyMsg C τ
  | .command c index => .command c index
  | .snapshot data term index => .snapshot (data.map (Snapshot.map f)) term index

def InstallSnapshotArgs.map (f : σ → τ) (args : InstallSnapshotArgs n C σ) :
    InstallSnapshotArgs n C τ :=
  ⟨args.term, args.leaderId, args.lastIncludedIndex, args.lastIncludedTerm,
    args.data.map (Snapshot.map f)⟩

def Rpc.map (f : σ → τ) : Rpc n C σ → Rpc n C τ
  | .requestVote args => .requestVote args
  | .requestVoteReply args reply log => .requestVoteReply args reply log
  | .applyEntries args => .applyEntries args
  | .applyEntriesReply args reply log => .applyEntriesReply args reply log
  | .installSnapshot args => .installSnapshot (args.map f)
  | .installSnapshotReply args reply log => .installSnapshotReply (args.map f) reply log

namespace Raft

def map (f : σ → τ) (rf : Raft n C σ) : Raft n C τ :=
  { me := rf.me
    currentTerm := rf.currentTerm
    identity := rf.identity
    voteFor := rf.voteFor
    logs := rf.logs
    committedIndex := rf.committedIndex
    lastApplied := rf.lastApplied
    nextIndex := rf.nextIndex
    matchIndex := rf.matchIndex
    discardCount := rf.discardCount
    snapshot := rf.snapshot.map (Snapshot.map f)
    lastIncludedIndex := rf.lastIncludedIndex
    applySnappending := rf.applySnappending
    votes := rf.votes
    persister := rf.persister.map f }

/-- The calls of a server. -/
def mapCalls (f : σ → τ) (calls : List (Fin n × Rpc n C σ)) : List (Fin n × Rpc n C τ) :=
  calls.map fun c => (c.1, c.2.map f)

/-! ### How a branch and a panic commute -/

lemma ite_comm {α β : Type} (g : α → β) {p : Prop} [Decidable p] {a b : α} {a' b' : β}
    (ha : a' = g a) (hb : b' = g b) : (if p then a' else b') = g (if p then a else b) := by
  rw [ha, hb, apply_ite g]

lemma bind_comm {α β γ : Type} (g : β → γ) (x : Option α) {k : α → Option β} {k' : α → Option γ}
    (h : ∀ a, k' a = (k a).map g) : x.bind k' = (x.bind k).map g := by
  rw [Option.map_bind]
  exact congrArg x.bind (funext h)

lemma map_comm {α α' β β' : Type} (G : β → β') {g : α → α'} {x : Option α} {x' : Option α'}
    {k : α → β} {k' : α' → β'} (hx : x' = x.map g) (h : ∀ a, k' (g a) = G (k a)) :
    x'.map k' = (x.map k).map G := by
  rw [hx, Option.map_map, Option.map_map]
  exact congrFun (congrArg Option.map (funext h)) x

lemma mapM_comm {α β γ : Type} (g : β → γ) {k : α → Option β} {k' : α → Option γ}
    (h : ∀ a, k' a = (k a).map g) (l : List α) : l.mapM k' = (l.mapM k).map (List.map g) := by
  induction l with
  | nil => rfl
  | cons a l ih =>
    rw [List.mapM_cons, List.mapM_cons, ih, h]
    cases k a with
    | none => rfl
    | some b => cases l.mapM k <;> rfl

variable [Inhabited C] (f : σ → τ) (rf : Raft n C σ)

/-! ### The critical sections -/

lemma map_committedIndex : (rf.map f).committedIndex = rf.committedIndex := rfl

lemma map_lastApplied : (rf.map f).lastApplied = rf.lastApplied := rfl

lemma map_logical : (rf.map f).logical = rf.logical := by
  unfold logical map coveredBy
  cases rf.snapshot <;> rfl

lemma map_make (me : Fin n) (p : Persister n C σ) : make me (p.map f) = (make me p).map f := by
  obtain ⟨_ | _, _ | _⟩ := p <;> rfl

lemma map_callSnapshot (index : ℕ) (d : Snapshot C σ) :
    (rf.map f).callSnapshot index (d.map f) = (rf.callSnapshot index d).map f := by
  unfold callSnapshot
  refine ite_comm (map f) rfl ?_
  -- the two counters are raised independently of each other
  by_cases hc : rf.committedIndex ≤ index <;> by_cases ha : rf.lastApplied ≤ index <;>
    simp only [map_logical, map_committedIndex, map_lastApplied, hc, ha, if_true, if_false] <;> rfl

lemma map_observe (term : ℕ) : (rf.map f).observe term = (rf.observe term).map f :=
  ite_comm (map f) rfl rfl

lemma map_followLeader (term : ℕ) : (rf.map f).followLeader term = (rf.followLeader term).map f :=
  ite_comm (map f) rfl rfl

lemma map_requestVote (args : RequestVoteArgs n) :
    (rf.map f).requestVote args = (rf.requestVote args).map (Prod.map (map f) id) := by
  unfold requestVote
  rw [map_observe]
  refine ite_comm _ rfl (bind_comm _ _ fun last => ?_)
  exact ite_comm (Option.map _) rfl rfl

lemma map_kickOffNewElection : (rf.map f).kickOffNewElection =
    rf.kickOffNewElection.map (Prod.map (map f) (mapCalls f)) := by
  unfold kickOffNewElection mapCalls
  rw [Option.map_map]
  simp only [Function.comp_def, Prod.map_apply, List.map_map]
  rfl

lemma map_electionTimeout : (rf.map f).electionTimeout =
    rf.electionTimeout.map (Prod.map (map f) (mapCalls f)) :=
  ite_comm (Option.map _) rfl (map_kickOffNewElection f
    (persist { rf with
      currentTerm := rf.currentTerm + 1
      identity := .candidate
      voteFor := some rf.me }))

lemma map_requestVoteReply (args : RequestVoteArgs n) (reply : RequestVoteReply) :
    (rf.map f).requestVoteReply args reply = (rf.requestVoteReply args reply).map f := by
  unfold requestVoteReply
  refine ite_comm _ rfl (ite_comm _ rfl (ite_comm _ ?_ rfl))
  exact ite_comm (map f) rfl rfl

lemma map_acceptEntries (args : ApplyEntriesArgs n C) :
    (rf.map f).acceptEntries args = (rf.acceptEntries args).map f := by
  unfold acceptEntries
  exact ite_comm _ (ite_comm (map f) rfl rfl) (ite_comm (map f) rfl rfl)

lemma map_applyEntries (args : ApplyEntriesArgs n C) :
    (rf.map f).applyEntries args = (rf.applyEntries args).map (Prod.map (map f) id) := by
  unfold applyEntries
  rw [map_followLeader]
  refine ite_comm _ rfl (bind_comm _ _ fun passed => ite_comm (Option.map _) ?_ ?_)
  · rw [map_acceptEntries]
    rfl
  · rw [Option.map_map]
    rfl

/-- The log that `InstallSnapshot` goes on with. -/
lemma map_retain {p : Prop} [Decidable p] (logs : List (LogEntry C)) :
    (if p then rf.map f else { rf.map f with logs := logs }) =
      (if p then rf else { rf with logs := logs }).map f :=
  ite_comm (map f) rfl rfl

lemma map_takeSnapshot (args : InstallSnapshotArgs n C σ) :
    (rf.map f).takeSnapshot (args.map f) = (rf.takeSnapshot args).map f :=
  congrArg (fun r : Raft n C τ => { r.doSnapshot with applySnappending := true })
    (map_retain f { rf with lastIncludedIndex := args.lastIncludedIndex, snapshot := args.data } _)

lemma map_installSnapshot (args : InstallSnapshotArgs n C σ) :
    (rf.map f).installSnapshot (args.map f) = Prod.map (map f) id (rf.installSnapshot args) := by
  unfold installSnapshot
  rw [map_followLeader]
  refine ite_comm _ rfl (ite_comm _ rfl ?_)
  rw [map_takeSnapshot]
  rfl

lemma map_heartBeatTo (i : Fin n) :
    (rf.map f).heartBeatTo i = (rf.heartBeatTo i).map (Rpc.map f) := by
  unfold heartBeatTo
  refine ite_comm _ ?_ (ite_comm _ (ite_comm (Option.map _) rfl ?_) ?_) <;>
  · rw [Option.map_map]
    rfl

lemma map_sendHeartBeat : (rf.map f).sendHeartBeat = rf.sendHeartBeat.map (mapCalls f) := by
  unfold sendHeartBeat
  refine mapM_comm _ (fun i => ?_) _
  rw [map_heartBeatTo, Option.map_map, Option.map_map]
  rfl

lemma map_heartbeatTimeout : (rf.map f).heartbeatTimeout = rf.heartbeatTimeout.map (mapCalls f) :=
  ite_comm (Option.map _) (map_sendHeartBeat f rf) rfl

lemma map_start (command : C) : (rf.map f).start command =
    (rf.start command).map (Prod.map (map f) (Prod.map id (mapCalls f))) := by
  unfold start
  refine ite_comm _ ?_ rfl
  have hs := map_sendHeartBeat f
    (persist { rf with logs := rf.logs ++ [⟨command, rf.currentTerm⟩] })
  rw [Option.map_map]
  exact (congrArg (Option.map _) hs).trans (Option.map_map ..)

lemma map_replicatedLoop (index : ℕ) (js : List (Fin n)) (cnt : ℕ) :
    (rf.map f).replicatedLoop index js cnt = rf.replicatedLoop index js cnt := by
  induction js generalizing cnt with
  | nil => rfl
  | cons j js ih =>
    unfold replicatedLoop
    rw [ih, ih]
    rfl

lemma map_commitLoop (low N : ℕ) : (rf.map f).commitLoop low N = rf.commitLoop low N := by
  induction N with
  | zero =>
    unfold commitLoop
    rw [map_replicatedLoop]
    rfl
  | succ N ih =>
    unfold commitLoop
    rw [map_replicatedLoop, ih]
    rfl

lemma map_updateCommittedIndex :
    (rf.map f).updateCommittedIndex = rf.updateCommittedIndex.map (map f) := by
  unfold updateCommittedIndex
  refine bind_comm _ _ fun low => ite_comm _ rfl (bind_comm _ _ fun high => ?_)
  refine ite_comm (Option.map _) rfl ?_
  rw [map_commitLoop]
  rfl

lemma map_sendApplyEntriesTo (server : Fin n) (args : ApplyEntriesArgs n C)
    (reply : ApplyEntriesReply) : (rf.map f).sendApplyEntriesTo server args reply =
      (rf.sendApplyEntriesTo server args reply).map (map f) := by
  unfold sendApplyEntriesTo
  refine ite_comm _ rfl (ite_comm _ (ite_comm _ (ite_comm (Option.map _) rfl rfl) ?_)
    (ite_comm (Option.map _) ?_ rfl))
  · rw [Option.map_map]
    rfl
  · exact map_updateCommittedIndex f { rf with
      matchIndex := Function.update rf.matchIndex server
        (args.prevLogIndex + 1 + args.entries.length - 1)
      nextIndex := Function.update rf.nextIndex server
        (args.prevLogIndex + 1 + args.entries.length - 1 + 1) }

lemma map_sendInstallSnapshotTo (server : Fin n) (args : InstallSnapshotArgs n C σ)
    (reply : InstallSnapshotReply) : (rf.map f).sendInstallSnapshotTo server (args.map f) reply =
      (rf.sendInstallSnapshotTo server args reply).map f := by
  unfold sendInstallSnapshotTo
  exact ite_comm _ rfl (ite_comm _ rfl (ite_comm (map f) rfl rfl))

lemma map_commandMsgs (index count : ℕ) : (rf.map f).commandMsgs index count =
    (rf.commandMsgs index count).map (List.map (ApplyMsg.map f)) := by
  induction count generalizing index with
  | zero => rfl
  | succ count ih =>
    unfold commandMsgs
    refine bind_comm _ _ fun e => ?_
    rw [ih, Option.map_map, Option.map_map]
    rfl

lemma map_applyLog : (rf.map f).applyLog =
    rf.applyLog.map (Prod.map (map f) (List.map (ApplyMsg.map f))) := by
  unfold applyLog
  refine ite_comm _ rfl ?_
  have hsnap : (if (rf.map f).applySnappending then ((rf.map f).entry 0).map fun e =>
        [ApplyMsg.snapshot (rf.map f).snapshot e.term (rf.map f).lastIncludedIndex]
      else some []) =
      (if rf.applySnappending then (rf.entry 0).map fun e =>
        [ApplyMsg.snapshot rf.snapshot e.term rf.lastIncludedIndex]
      else some []).map (List.map (ApplyMsg.map f)) := by
    refine ite_comm (Option.map _) ?_ rfl
    rw [Option.map_map]
    rfl
  dsimp only
  rw [hsnap, Option.bind_map]
  refine bind_comm _ _ fun snap => ite_comm (Option.map _) ?_ rfl
  rw [Option.map_map]
  refine (congrArg (Option.map _) (map_commandMsgs f { rf with applySnappending := false } _ _)).trans
    ?_
  rw [Option.map_map]
  refine congrFun (congrArg Option.map (funext fun msgs => ?_)) _
  simp only [Function.comp_def, Prod.map_apply, List.map_append]
  rfl

end Raft

end RaftLabs
