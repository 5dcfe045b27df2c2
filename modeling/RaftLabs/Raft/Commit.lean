import RaftLabs.Raft.Log

/-!
# The counters of the commit rule and the delivery loop

`Progress` are the counters that `updateCommittedIndex` and `applyLog` are about.  What every
function of the server does to them is said here once, and for every critical section in `Advance`
(`handle_advance`).
-/

set_option linter.unusedSectionVars false

namespace RaftLabs

open Lib

variable {n : ℕ} {C σ : Type} [Inhabited C]

namespace Raft

variable {rf rf' : Raft n C σ}

/-! ### The counters -/

/-- How far a server knows the log to be committed, applied and replicated. -/
structure Progress (n : ℕ) where
  committedIndex : ℕ
  lastApplied : ℕ
  matchIndex : Fin n → ℕ

def progress (rf : Raft n C σ) : Progress n := ⟨rf.committedIndex, rf.lastApplied, rf.matchIndex⟩

@[simp] lemma progress_persist : rf.persist.progress = rf.progress := rfl

@[simp] lemma progress_stepDown (t : ℕ) : (rf.stepDown t).progress = rf.progress := rfl

@[simp] lemma progress_followLeader (t : ℕ) : (rf.followLeader t).progress = rf.progress := by
  dsimp only [followLeader]
  split <;> rfl

lemma progress_requestVote {args : RequestVoteArgs n} {reply : RequestVoteReply}
    (h : rf.requestVote args = some (rf', reply)) : rf'.progress = rf.progress := by
  obtain ⟨rfl, -⟩ | ⟨-, -, last, -, ⟨rfl, -⟩ | ⟨rfl, -, -⟩⟩ := requestVote_cases h
  · rfl
  · unfold observe
    split <;> rfl
  · rfl

lemma progress_electionTimeout {calls : List (Fin n × Rpc n C σ)}
    (h : rf.electionTimeout = some (rf', calls)) : rf'.progress = rf.progress := by
  obtain ⟨-, rfl, -⟩ | ⟨-, last, -, rfl, -⟩ := electionTimeout_cases h
  · rfl
  · rfl

lemma progress_start {command : C} {res : Option (ℕ × ℕ)} {calls : List (Fin n × Rpc n C σ)}
    (h : rf.start command = some (rf', res, calls)) : rf'.progress = rf.progress := by
  obtain ⟨-, rfl, -⟩ | ⟨-, rfl, -⟩ := start_cases h
  · rfl
  · rfl

/-- The index up to which `ApplyEntries` lets a follower commit: the first of the new entries, or
the end of the log where there are none. -/
def commitBound (rf : Raft n C σ) (args : ApplyEntriesArgs n C) : ℕ :=
  if args.entries ≠ [] then args.prevLogIndex + 1 else rf.raftIndex (rf.logs.length - 1)

/-- The `committedIndex` that `ApplyEntries` leaves when its check has passed. -/
def acceptedIndex (rf : Raft n C σ) (args : ApplyEntriesArgs n C) : ℕ :=
  if rf.committedIndex < args.leaderCommit then min args.leaderCommit (rf.commitBound args)
  else rf.committedIndex

/-- What the leader has committed is all that `ApplyEntries` commits. -/
lemma acceptedIndex_cases (rf : Raft n C σ) (args : ApplyEntriesArgs n C) :
    rf.acceptedIndex args = rf.committedIndex ∨ rf.acceptedIndex args ≤ args.leaderCommit := by
  unfold acceptedIndex
  split
  · exact Or.inr (min_le_left _ _)
  · exact Or.inl rfl

lemma progress_acceptEntries (rf : Raft n C σ) (args : ApplyEntriesArgs n C) :
    (rf.acceptEntries args).progress =
      { rf.progress with committedIndex := rf.acceptedIndex args } := by
  have hmin : ∀ {a b : ℕ}, (if a ≤ b then a else b) = min b a := fun {a b} => by
    rw [min_comm, min_def]
  have hmin' : ∀ {a b : ℕ}, (if a < b then a else b) = min b a := fun {a b} => by
    rw [min_comm, min_def_lt]
  unfold acceptEntries acceptedIndex commitBound
  by_cases he : args.entries ≠ []
  · simp only [if_pos he, hmin']
    by_cases hlt : rf.committedIndex < args.leaderCommit
    · simp only [if_pos hlt]
      rfl
    · simp only [if_neg hlt]
      rfl
  · simp only [if_neg he, hmin]
    by_cases hlt : rf.committedIndex < args.leaderCommit
    · simp only [if_pos hlt]
      rfl
    · simp only [if_neg hlt]
      rfl

/-- `ApplyEntries` moves `committedIndex` when its check passes, and nothing else. -/
lemma progress_applyEntries {args : ApplyEntriesArgs n C} {reply : ApplyEntriesReply}
    (h : rf.applyEntries args = some (rf', reply)) : rf'.progress =
      if rf.currentTerm ≤ args.term ∧ rf.replicateCheck args = some true then
        { rf.progress with committedIndex := rf.acceptedIndex args }
      else rf.progress := by
  split
  · rename_i hc
    have hindex : (rf.followLeader args.term).acceptedIndex args = rf.acceptedIndex args := by
      rw [followLeader_eq rf hc.1]
      rfl
    cases (applyEntries_of_check hc.1 hc.2).symm.trans h
    rw [progress_persist, progress_acceptEntries, hindex, progress_followLeader]
  · rename_i hc
    unfold applyEntries at h
    split at h
    · cases h
      rw [progress_persist]
    · rename_i hle
      obtain ⟨passed, hpassed, h⟩ := Option.bind_eq_some_iff.1 h
      rw [followLeader_eq rf (not_lt.1 hle)] at hpassed
      cases passed with
      | true => exact absurd ⟨not_lt.1 hle, hpassed⟩ hc
      | false =>
        obtain ⟨r, hr, h⟩ := Option.map_eq_some_iff.1 h
        cases h
        rw [progress_persist, progress_followLeader]

lemma progress_takeSnapshot (args : InstallSnapshotArgs n C σ) :
    (rf.takeSnapshot args).progress = rf.progress := by
  rw [takeSnapshot_eq]
  rfl

lemma progress_callSnapshot {index : ℕ} (data : Snapshot C σ) (h : rf.lastIncludedIndex < index) :
    (rf.callSnapshot index data).progress =
      ⟨max rf.committedIndex index, max rf.lastApplied index, rf.matchIndex⟩ := by
  dsimp only [callSnapshot]
  rw [if_neg (not_le.2 h)]
  split_ifs with h₁ h₂ h₂
  · rw [max_eq_right h₁, max_eq_right h₂]
    rfl
  · rw [max_eq_right h₁, max_eq_left (not_le.1 h₂).le]
    rfl
  · rw [max_eq_left (not_le.1 h₁).le, max_eq_right h₂]
    rfl
  · rw [max_eq_left (not_le.1 h₁).le, max_eq_left (not_le.1 h₂).le]
    rfl

lemma progress_make (me : Fin n) (persister : Persister n C σ) :
    (make me persister).progress =
      ⟨(persister.snapshot.map Snapshot.index).getD 0,
        (persister.snapshot.map Snapshot.index).getD 0, fun _ => 0⟩ := by
  rcases persister with ⟨_ | _, _ | _⟩ <;> rfl

/-- **What a critical section does to the counters.**  Each constructor but the first is the one
place of the code that moves them so. -/
inductive Advance (rf rf' : Raft n C σ) : Input n C σ → Prop
  | keep {x : Input n C σ} (h : rf'.progress = rf.progress) : Advance rf rf' x
  | lead (args : RequestVoteArgs n) (reply : RequestVoteReply) (hcand : rf.identity = .candidate)
      (h : rf'.progress = { rf.progress with matchIndex := fun _ => 0 }) :
      Advance rf rf' (.requestVoteReply args reply)
  | accept (args : ApplyEntriesArgs n C) (hterm : rf.currentTerm ≤ args.term)
      (hcheck : rf.replicateCheck args = some true)
      (h : rf'.progress = { rf.progress with committedIndex := rf.acceptedIndex args }) :
      Advance rf rf' (.applyEntries args)
  | replicated (server : Fin n) (args : ApplyEntriesArgs n C) (reply : ApplyEntriesReply)
      (index : ℕ) (hterm : rf.currentTerm ≤ reply.term) (hsucc : reply.success = true)
      (hne : args.entries ≠ []) (hnext : args.prevLogIndex + 1 = rf.nextIndex server)
      (hindex : rf.committedIndex ≤ index)
      (h : rf'.progress = ⟨index, rf.lastApplied, Function.update rf.matchIndex server
        (args.prevLogIndex + args.entries.length)⟩) :
      Advance rf rf' (.applyEntriesReply server args reply)
  | installed (server : Fin n) (args : InstallSnapshotArgs n C σ) (reply : InstallSnapshotReply)
      (hmatch : rf.matchIndex server ≤ args.lastIncludedIndex)
      (h : rf'.progress = { rf.progress with
        matchIndex := Function.update rf.matchIndex server args.lastIncludedIndex }) :
      Advance rf rf' (.installSnapshotReply server args reply)
  | compact (index : ℕ) (data : Snapshot C σ) (h : rf'.progress =
      ⟨max rf.committedIndex index, max rf.lastApplied index, rf.matchIndex⟩) :
      Advance rf rf' (.callSnapshot index data)
  | applied (lastApplied : ℕ) (hle : rf.lastApplied ≤ lastApplied)
      (h : rf'.progress = { rf.progress with lastApplied := lastApplied }) :
      Advance rf rf' .applyLog

lemma handle_advance {x : Input n C σ} {terms : List ℕ} (h : rf.handle x = some (rf', terms)) :
    Advance rf rf' x := by
  cases x with
  | requestVote args =>
    obtain ⟨r, hr, h⟩ := Option.map_eq_some_iff.1 h
    cases h
    exact .keep (progress_requestVote hr)
  | requestVoteReply args reply =>
    cases h
    obtain h | ⟨-, h⟩ | ⟨-, -, h | ⟨hcand, -, h⟩⟩ := requestVoteReply_cases rf args reply
    · exact .keep (by rw [h])
    · exact .keep (by rw [h, progress_stepDown])
    · exact .keep (by rw [h]; rfl)
    · exact .lead args reply hcand (by rw [h]; rfl)
  | applyEntries args =>
    obtain ⟨r, hr, h⟩ := Option.map_eq_some_iff.1 h
    cases h
    have hprog := progress_applyEntries hr
    split at hprog
    · rename_i hc
      exact .accept args hc.1 hc.2 hprog
    · exact .keep hprog
  | applyEntriesReply server args reply =>
    obtain ⟨r, hr, h⟩ := Option.map_eq_some_iff.1 h
    cases h
    obtain h | ⟨-, h⟩ | ⟨index, h⟩ | ⟨hterm, hsucc, hne, hnext, h⟩ := sendApplyEntriesTo_cases hr
    · exact .keep (by rw [h])
    · exact .keep (by rw [h, progress_stepDown])
    · exact .keep (by rw [h]; rfl)
    · obtain ⟨index, h, hindex⟩ := updateCommittedIndex_cases h
      refine .replicated server args reply index hterm hsucc hne hnext ?_ (by rw [h]; rfl)
      obtain hindex | ⟨hlt, -⟩ := hindex
      · exact hindex.ge
      · exact hlt.le
  | installSnapshot args =>
    cases h
    obtain ⟨-, h⟩ | ⟨-, -, h⟩ | ⟨-, -, h⟩ := installSnapshot_cases rf args
    · exact .keep (by rw [h])
    · exact .keep (by rw [h, progress_followLeader])
    · exact .keep (by rw [h, progress_takeSnapshot, progress_followLeader])
  | installSnapshotReply server args reply =>
    cases h
    obtain h | ⟨-, h⟩ | ⟨-, hmatch, h⟩ := sendInstallSnapshotTo_cases rf server args reply
    · exact .keep (by rw [h])
    · exact .keep (by rw [h, progress_stepDown])
    · exact .installed server args reply hmatch (by rw [h]; rfl)
  | electionTimeout =>
    obtain ⟨r, hr, h⟩ := Option.map_eq_some_iff.1 h
    cases h
    exact .keep (progress_electionTimeout hr)
  | heartbeatTimeout =>
    obtain ⟨r, hr, h⟩ := Option.map_eq_some_iff.1 h
    cases h
    exact .keep rfl
  | start command =>
    obtain ⟨⟨r, res, calls⟩, hr, h⟩ := Option.map_eq_some_iff.1 h
    cases h
    exact .keep (progress_start hr)
  | callSnapshot index data =>
    cases h
    rcases Nat.lt_or_ge rf.lastIncludedIndex index with hlt | hge
    · exact .compact index data (progress_callSnapshot data hlt)
    · exact .keep (by rw [show rf.callSnapshot index data = rf from if_pos hge])
  | applyLog =>
    obtain ⟨⟨r, msgs⟩, hr, h⟩ := Option.map_eq_some_iff.1 h
    cases h
    obtain ⟨snap, cmds, lastApplied, -, rfl, -, ⟨-, -, rfl⟩ | ⟨-, -, rfl⟩⟩ := applyLog_cases hr
    · exact .keep rfl
    · exact .applied _ ((le_max_left _ _).trans (le_max_left _ _)) rfl

/-- No critical section moves `lastApplied` back. -/
lemma Advance.lastApplied_le {x : Input n C σ} (h : Advance rf rf' x) :
    rf.lastApplied ≤ rf'.lastApplied := by
  change rf.progress.lastApplied ≤ rf'.progress.lastApplied
  cases h with
  | keep h => rw [h]
  | lead _ _ _ h => rw [h]
  | accept _ _ _ h => rw [h]
  | replicated _ _ _ _ _ _ _ _ _ h => exact (congrArg Progress.lastApplied h).ge
  | installed _ _ _ _ h => rw [h]
  | compact _ _ h => exact (le_max_left _ _).trans (congrArg Progress.lastApplied h).ge
  | applied _ hle h => exact hle.trans (congrArg Progress.lastApplied h).ge

end Raft

end RaftLabs
