import RaftLabs.Raft.Input

/-!
# What each part of the code can do

One inversion lemma for each function of the server: the ways it can end, with the guards that lead
there and the resulting state written out.  Every invariant is derived from these, without looking
at the code again.  Among them are what the commit rule and the delivery loop compute: the first
moves `committedIndex` only to an index that lies, in `Logs`, between two entries of the leader's
term and that a majority is known to have; the second sends the snapshot, if one is pending, and
then the commands up to `committedIndex` one after the other.
-/

set_option linter.unusedSectionVars false

namespace RaftLabs

variable {n : ℕ} {C σ : Type} [Inhabited C] {rf rf' : Raft n C σ}

namespace Raft

/-! ### Reading the log -/

lemma entry_eq_some {i : ℤ} {e : LogEntry C} :
    rf.entry i = some e ↔ 0 ≤ i ∧ rf.logs[i.toNat]? = some e := by
  unfold entry
  split
  · rename_i h
    simp [not_le.2 h]
  · rename_i h
    simp [not_lt.1 h]

lemma entry_realIndex {k : ℕ} {e : LogEntry C} (h : rf.entry (rf.realIndex k) = some e) :
    rf.discardCount ≤ k ∧ rf.logs[k - rf.discardCount]? = some e := by
  obtain ⟨hneg, he⟩ := entry_eq_some.1 h
  unfold realIndex at hneg he
  have hk : ((k : ℤ) - rf.discardCount).toNat = k - rf.discardCount := by omega
  rw [hk] at he
  exact ⟨by omega, he⟩

lemma entry_of_realIndex {k : ℕ} {e : LogEntry C} (hk : rf.discardCount ≤ k)
    (h : rf.logs[k - rf.discardCount]? = some e) : rf.entry (rf.realIndex k) = some e := by
  refine entry_eq_some.2 ⟨?_, ?_⟩
  · unfold realIndex
    omega
  · rwa [show (rf.realIndex k).toNat = k - rf.discardCount by unfold realIndex; omega]

/-! ### Votes -/

/-- `RequestVote` rejects at once, or takes over the term and rejects the candidate's log, or grants
its vote. -/
lemma requestVote_cases {args : RequestVoteArgs n} {reply : RequestVoteReply}
    (h : rf.requestVote args = some (rf', reply)) :
    (rf' = rf.persist ∧ reply = ⟨rf.currentTerm, false⟩) ∨
    (rf.currentTerm ≤ args.term ∧
      (args.term = rf.currentTerm → rf.voteFor = none ∨ rf.voteFor = some args.candidateId) ∧
      ∃ last, rf.logs[rf.logs.length - 1]? = some last ∧
        ((rf' = (rf.observe args.term).persist ∧ reply = ⟨args.term, false⟩) ∨
         (rf' = ({ rf with
            currentTerm := args.term
            identity := .follower
            voteFor := some args.candidateId } : Raft n C σ).persist ∧
          reply = ⟨args.term, true⟩ ∧
          (last.term < args.lastLogTerm ∨
            (args.lastLogTerm = last.term ∧
              rf.raftIndex (rf.logs.length - 1) ≤ args.lastLogIndex))))) := by
  unfold requestVote at h
  split at h
  · cases h
    exact Or.inl ⟨rfl, rfl⟩
  · rename_i hguard
    push Not at hguard
    obtain ⟨hle, hvote⟩ := hguard
    right
    have hobs : (rf.observe args.term).currentTerm = args.term ∧
        (rf.observe args.term).logs = rf.logs ∧
        (rf.observe args.term).discardCount = rf.discardCount := by
      unfold observe
      split
      · exact ⟨rfl, rfl, rfl⟩
      · rename_i hlt
        exact ⟨le_antisymm hle (not_lt.1 hlt), rfl, rfl⟩
    obtain ⟨hterm, hlogs, hdisc⟩ := hobs
    obtain ⟨last, hlast, h⟩ := Option.bind_eq_some_iff.1 h
    have hlast' : rf.logs[rf.logs.length - 1]? = some last := by
      simpa [entry, hlogs] using hlast
    refine ⟨hle, ?_, last, hlast', ?_⟩
    · intro heq
      by_cases hn : rf.voteFor = none
      · exact Or.inl hn
      · exact Or.inr (hvote heq hn)
    · split at h
      · rename_i hup
        cases h
        refine Or.inr ⟨?_, by rw [hterm], ?_⟩
        · unfold observe
          split <;> rfl
        · simpa only [raftIndex, hlogs, hdisc] using hup
      · cases h
        exact Or.inl ⟨rfl, by rw [hterm]⟩

/-- The state of a candidate in its new term. -/
def asCandidate (rf : Raft n C σ) : Raft n C σ :=
  { rf with currentTerm := rf.currentTerm + 1, identity := .candidate, voteFor := some rf.me }

lemma electionTimeout_cases {calls : List (Fin n × Rpc n C σ)}
    (h : rf.electionTimeout = some (rf', calls)) :
    (rf.identity = .leader ∧ rf' = rf ∧ calls = []) ∨
    (rf.identity ≠ .leader ∧ ∃ last, rf.logs[rf.logs.length - 1]? = some last ∧
      rf' = { rf.asCandidate.persist with
        votes := Function.update rf.votes (rf.currentTerm + 1) 1 } ∧
      calls = ((List.finRange n).filter (· ≠ rf.me)).map fun i => (i, .requestVote
        ⟨rf.currentTerm + 1, rf.me, rf.raftIndex (rf.logs.length - 1), last.term⟩)) := by
  unfold electionTimeout at h
  split at h
  · rename_i hl
    cases h
    exact Or.inl ⟨hl, rfl, rfl⟩
  · rename_i hl
    right
    unfold kickOffNewElection at h
    obtain ⟨last, hlast, h⟩ := Option.map_eq_some_iff.1 h
    cases h
    refine ⟨hl, last, ?_, rfl, rfl⟩
    obtain ⟨hneg, hlast⟩ := entry_eq_some.1 hlast
    have : ((rf.logs.length : ℤ) - 1).toNat = rf.logs.length - 1 := by omega
    simpa only [persist_logs, this] using hlast

/-- A vote is counted, without making a majority or with no effect. -/
def countVote (rf : Raft n C σ) (term : ℕ) : Raft n C σ :=
  { rf with votes := Function.update rf.votes term (rf.votes term + 1) }

/-- The state of a fresh leader. -/
def asLeader (rf : Raft n C σ) : Raft n C σ :=
  { rf with
    identity := .leader
    nextIndex := fun _ => rf.raftIndex rf.logs.length
    matchIndex := fun _ => 0 }

lemma requestVoteReply_cases (rf : Raft n C σ) (args : RequestVoteArgs n)
    (reply : RequestVoteReply) :
    rf.requestVoteReply args reply = rf ∨
    (rf.currentTerm < reply.term ∧ rf.requestVoteReply args reply = rf.stepDown reply.term) ∨
    (reply.term = rf.currentTerm ∧ reply.voteGranted = true ∧
      (rf.requestVoteReply args reply = rf.countVote args.term ∨
       (rf.identity = .candidate ∧ n < (rf.votes args.term + 1) * 2 ∧
        rf.requestVoteReply args reply = (rf.countVote args.term).asLeader))) := by
  dsimp only [requestVoteReply]
  split_ifs with h₁ h₂ h₃ h₄
  · exact Or.inl rfl
  · exact Or.inr (Or.inl ⟨h₂, rfl⟩)
  · obtain ⟨hmaj, -, hcand⟩ := h₄
    refine Or.inr (Or.inr ⟨le_antisymm (not_lt.1 h₂) (not_lt.1 h₁), h₃, Or.inr ⟨hcand, ?_, rfl⟩⟩)
    simpa using hmaj
  · exact Or.inr (Or.inr ⟨le_antisymm (not_lt.1 h₂) (not_lt.1 h₁), h₃, Or.inl rfl⟩)
  · exact Or.inl rfl

/-! ### Replication, on the follower -/

/-- A passed `ReplicateCheck` found an entry of the right term at the previous index. -/
lemma replicateCheck_true {args : ApplyEntriesArgs n C}
    (h : rf.replicateCheck args = some true) :
    rf.discardCount ≤ args.prevLogIndex ∧
      ∃ e, rf.logs[args.prevLogIndex - rf.discardCount]? = some e ∧ e.term = args.prevLogTerm := by
  have hfind : ∀ {b : Bool}, ((rf.entry (rf.realIndex args.prevLogIndex)).map
      fun e => decide (e.term = args.prevLogTerm)) = some b → b = true →
      rf.discardCount ≤ args.prevLogIndex ∧
        ∃ e, rf.logs[args.prevLogIndex - rf.discardCount]? = some e ∧
          e.term = args.prevLogTerm := by
    intro b hb hbt
    obtain ⟨e, he, hd⟩ := Option.map_eq_some_iff.1 hb
    obtain ⟨hle, he⟩ := entry_realIndex he
    exact ⟨hle, e, he, of_decide_eq_true (hd.trans hbt)⟩
  dsimp only [replicateCheck] at h
  split_ifs at h <;> first | exact hfind h rfl | cases h

/-- The state of a follower that has recognised the leader of `args`. -/
lemma followLeader_eq (rf : Raft n C σ) {term : ℕ} (h : rf.currentTerm ≤ term) :
    rf.followLeader term = { rf with
      currentTerm := term
      identity := .follower
      voteFor := if rf.currentTerm = term then rf.voteFor else none } := by
  dsimp only [followLeader]
  rcases Nat.lt_or_eq_of_le h with hlt | heq
  · simp [hlt, ne_of_lt hlt]
  · simp [heq]

/-- `ApplyEntries` turns the message away, or recognises its leader and then fails the check, finds
the entries hidden in its snapshot, or takes them over. -/
lemma applyEntries_cases {args : ApplyEntriesArgs n C} {reply : ApplyEntriesReply}
    (h : rf.applyEntries args = some (rf', reply)) :
    (args.term < rf.currentTerm ∧ rf' = rf.persist ∧ reply.term = rf.currentTerm ∧
      reply.success = false) ∨
    (rf.currentTerm ≤ args.term ∧ reply.term = args.term ∧
      ((rf' = (rf.followLeader args.term).persist ∧ reply.success = false) ∨
       (rf' = (rf.followLeader args.term).persist ∧ reply.success = true ∧
        args.prevLogIndex < rf.discardCount) ∨
       (rf' = ((rf.followLeader args.term).acceptEntries args).persist ∧ reply.success = true ∧
        rf.discardCount ≤ args.prevLogIndex ∧
        ∃ e, rf.logs[args.prevLogIndex - rf.discardCount]? = some e ∧
          e.term = args.prevLogTerm))) := by
  unfold applyEntries at h
  split at h
  · rename_i hlt
    cases h
    exact Or.inl ⟨hlt, rfl, rfl, rfl⟩
  · rename_i hle
    have hle := not_lt.1 hle
    have hterm : (rf.followLeader args.term).currentTerm = args.term := by
      rw [followLeader_currentTerm]
      exact max_eq_right hle
    have hlogs : (rf.followLeader args.term).logs = rf.logs := by
      rw [followLeader_eq rf hle]
    have hdisc : (rf.followLeader args.term).discardCount = rf.discardCount := by
      rw [followLeader_eq rf hle]
    refine Or.inr ⟨hle, ?_⟩
    obtain ⟨passed, hpassed, h⟩ := Option.bind_eq_some_iff.1 h
    cases passed with
    | true =>
      cases h
      have := replicateCheck_true hpassed
      rw [hlogs, hdisc] at this
      exact ⟨hterm, Or.inr (Or.inr ⟨rfl, rfl, this⟩)⟩
    | false =>
      obtain ⟨r, hr, h⟩ := Option.map_eq_some_iff.1 h
      cases h
      dsimp only [rejectEntries] at hr
      split_ifs at hr with hneg hlong
      · cases hr
        refine ⟨hterm, Or.inr (Or.inl ⟨rfl, rfl, ?_⟩)⟩
        unfold realIndex at hneg
        rw [hdisc] at hneg
        omega
      · cases hr
        exact ⟨hterm, Or.inl ⟨rfl, rfl⟩⟩
      · obtain ⟨e, -, hr⟩ := Option.bind_eq_some_iff.1 hr
        obtain ⟨index, -, hr⟩ := Option.bind_eq_some_iff.1 hr
        split_ifs at hr
        cases hr
        exact ⟨hterm, Or.inl ⟨rfl, rfl⟩⟩

/-- `ApplyEntries`, when its check passes. -/
lemma applyEntries_of_check {args : ApplyEntriesArgs n C} (hterm : rf.currentTerm ≤ args.term)
    (hcheck : rf.replicateCheck args = some true) :
    rf.applyEntries args = some (((rf.followLeader args.term).acceptEntries args).persist,
      { term := args.term, success := true }) := by
  have hfollow := followLeader_eq rf hterm
  have hcheck' : (rf.followLeader args.term).replicateCheck args = some true := by
    rw [hfollow]
    exact hcheck
  unfold applyEntries
  rw [if_neg (not_lt.2 hterm)]
  dsimp only
  rw [hcheck', Option.bind_some, if_pos rfl, followLeader_currentTerm, max_eq_right hterm]

/-- `InstallSnapshot` turns the message away, recognises its leader without need for the snapshot,
or installs it. -/
lemma installSnapshot_cases (rf : Raft n C σ) (args : InstallSnapshotArgs n C σ) :
    (args.term < rf.currentTerm ∧ rf.installSnapshot args = (rf, ⟨rf.currentTerm⟩)) ∨
    (rf.currentTerm ≤ args.term ∧ args.lastIncludedIndex ≤ rf.lastIncludedIndex ∧
      rf.installSnapshot args = (rf.followLeader args.term, ⟨args.term⟩)) ∨
    (rf.currentTerm ≤ args.term ∧ rf.lastIncludedIndex < args.lastIncludedIndex ∧
      rf.installSnapshot args = ((rf.followLeader args.term).takeSnapshot args, ⟨args.term⟩)) := by
  unfold installSnapshot
  by_cases hlt : args.term < rf.currentTerm
  · rw [if_pos hlt]
    exact Or.inl ⟨hlt, rfl⟩
  · rw [if_neg hlt]
    have hle := not_lt.1 hlt
    have hterm : (rf.followLeader args.term).currentTerm = args.term := by
      rw [followLeader_currentTerm]
      exact max_eq_right hle
    have hincl : (rf.followLeader args.term).lastIncludedIndex = rf.lastIncludedIndex := by
      rw [followLeader_eq rf hle]
    dsimp only
    rw [hterm, hincl]
    right
    by_cases hi : args.lastIncludedIndex ≤ rf.lastIncludedIndex
    · rw [if_pos hi]
      exact Or.inl ⟨hle, hi, rfl⟩
    · rw [if_neg hi]
      exact Or.inr ⟨hle, not_le.1 hi, rfl⟩

/-- `realIndex` and `entry` see only the log. -/
lemma takeSnapshot_eq (rf : Raft n C σ) (args : InstallSnapshotArgs n C σ) :
    rf.takeSnapshot args =
      { ({ rf with
            lastIncludedIndex := args.lastIncludedIndex
            snapshot := args.data
            logs :=
              if rf.discardCount < args.lastIncludedIndex ∧
                  (rf.logs[args.lastIncludedIndex - rf.discardCount]?).map LogEntry.term =
                    some args.lastIncludedTerm then rf.logs
              else [⟨default, args.lastIncludedTerm⟩] } : Raft n C σ).doSnapshot with
          applySnappending := true } := by
  have hiff : (0 < rf.realIndex args.lastIncludedIndex ∧
      rf.realIndex args.lastIncludedIndex < rf.logs.length ∧
      (rf.entry (rf.realIndex args.lastIncludedIndex)).map LogEntry.term =
        some args.lastIncludedTerm) ↔ (rf.discardCount < args.lastIncludedIndex ∧
      (rf.logs[args.lastIncludedIndex - rf.discardCount]?).map LogEntry.term =
        some args.lastIncludedTerm) := by
    constructor
    · rintro ⟨h₁, -, h₃⟩
      obtain ⟨e, he, ht⟩ := Option.map_eq_some_iff.1 h₃
      obtain ⟨hle, he⟩ := entry_realIndex he
      unfold realIndex at h₁
      exact ⟨by omega, by rw [he]; exact congrArg some ht⟩
    · rintro ⟨h₁, h₂⟩
      obtain ⟨e, he, ht⟩ := Option.map_eq_some_iff.1 h₂
      obtain ⟨hlen, -⟩ := List.getElem?_eq_some_iff.1 he
      have hk : (rf.realIndex args.lastIncludedIndex).toNat =
          args.lastIncludedIndex - rf.discardCount := by
        unfold realIndex
        omega
      refine ⟨by unfold realIndex; omega, by unfold realIndex; omega, ?_⟩
      rw [entry_eq_some.2 ⟨by unfold realIndex; omega, hk ▸ he⟩]
      exact congrArg some ht
  unfold takeSnapshot
  by_cases hkeep : 0 < rf.realIndex args.lastIncludedIndex ∧
      rf.realIndex args.lastIncludedIndex < rf.logs.length ∧
      (rf.entry (rf.realIndex args.lastIncludedIndex)).map LogEntry.term =
        some args.lastIncludedTerm
  · rw [if_pos (hiff.1 hkeep)]
    unfold realIndex entry at hkeep ⊢
    dsimp only at hkeep ⊢
    rw [if_pos hkeep]
  · rw [if_neg fun h => hkeep (hiff.2 h)]
    unfold realIndex entry at hkeep ⊢
    dsimp only at hkeep ⊢
    rw [if_neg hkeep]

/-! ### Replication, on the leader -/

/-- `Start` on a leader appends the command. -/
lemma start_cases {command : C} {res : Option (ℕ × ℕ)} {calls : List (Fin n × Rpc n C σ)}
    (h : rf.start command = some (rf', res, calls)) :
    (rf.identity ≠ .leader ∧ rf' = rf ∧ calls = []) ∨
    (rf.identity = .leader ∧
      rf' = ({ rf with logs := rf.logs ++ [⟨command, rf.currentTerm⟩] } : Raft n C σ).persist ∧
      rf'.sendHeartBeat = some calls) := by
  unfold start at h
  split at h
  · rename_i hl
    obtain ⟨calls', hcalls, h⟩ := Option.map_eq_some_iff.1 h
    cases h
    exact Or.inr ⟨hl, rfl, hcalls⟩
  · rename_i hl
    cases h
    exact Or.inl ⟨hl, rfl, rfl⟩

/-- Every call of `sendHeartBeat` is the one `heartBeatTo` builds for its receiver. -/
lemma mem_sendHeartBeat {calls : List (Fin n × Rpc n C σ)} (h : rf.sendHeartBeat = some calls)
    {c : Fin n × Rpc n C σ} (hc : c ∈ calls) : c.1 ≠ rf.me ∧ rf.heartBeatTo c.1 = some c.2 := by
  unfold sendHeartBeat at h
  generalize hl : (List.finRange n).filter (· ≠ rf.me) = l at h
  have hme : ∀ i ∈ l, i ≠ rf.me := by
    intro i hi
    rw [← hl] at hi
    simpa using (List.mem_filter.1 hi).2
  clear hl
  induction l generalizing calls with
  | nil =>
    cases h
    cases hc
  | cons i l ih =>
    rw [List.mapM_cons] at h
    obtain ⟨c', hc', h⟩ := Option.bind_eq_some_iff.1 h
    obtain ⟨cs, hcs, h⟩ := Option.bind_eq_some_iff.1 h
    cases h
    obtain ⟨rpc, hrpc, rfl⟩ := Option.map_eq_some_iff.1 hc'
    rcases List.mem_cons.1 hc with rfl | hc
    · exact ⟨hme i (by simp), hrpc⟩
    · exact ih hc hcs fun j hj => hme j (List.mem_cons_of_mem _ hj)

lemma heartbeatTimeout_cases {calls : List (Fin n × Rpc n C σ)}
    (h : rf.heartbeatTimeout = some calls) :
    calls = [] ∨ (rf.identity = .leader ∧ rf.sendHeartBeat = some calls) := by
  unfold heartbeatTimeout at h
  split at h
  · rename_i hl
    exact Or.inr ⟨hl, h⟩
  · cases h
    exact Or.inl rfl

/-- What `sendHeartBeat` sends: the snapshot, or a stretch of the log up to its end together with the
term of the entry before it. -/
lemma heartBeatTo_cases {i : Fin n} {rpc : Rpc n C σ} (h : rf.heartBeatTo i = some rpc) :
    (∃ e, rf.logs[0]? = some e ∧ rf.nextIndex i ≤ rf.lastIncludedIndex ∧
      rpc = .installSnapshot
        ⟨rf.currentTerm, rf.me, rf.lastIncludedIndex, e.term, rf.snapshot⟩) ∨
    (∃ k e, rf.logs[k]? = some e ∧
      rpc = .applyEntries ⟨rf.currentTerm, rf.me, rf.raftIndex k, e.term,
        rf.logs.drop (k + 1), rf.committedIndex⟩) := by
  dsimp only [heartBeatTo] at h
  split_ifs at h with hsnap hlong hpanic
  · obtain ⟨e, he, rfl⟩ := Option.map_eq_some_iff.1 h
    obtain ⟨-, he⟩ := entry_eq_some.1 he
    exact Or.inl ⟨e, he, hsnap, rfl⟩
  · obtain ⟨e, he, rfl⟩ := Option.map_eq_some_iff.1 h
    push Not at hpanic
    obtain ⟨hle, he⟩ := entry_realIndex he
    right
    refine ⟨rf.nextIndex i - 1 - rf.discardCount, e, he, ?_⟩
    have h₁ : rf.raftIndex (rf.nextIndex i - 1 - rf.discardCount) = rf.nextIndex i - 1 := by
      unfold raftIndex
      omega
    have h₂ : (rf.realIndex (rf.nextIndex i)).toNat =
        rf.nextIndex i - 1 - rf.discardCount + 1 := by
      unfold realIndex
      omega
    rw [h₁, h₂]
  · obtain ⟨e, he, rfl⟩ := Option.map_eq_some_iff.1 h
    obtain ⟨hle, he⟩ := entry_realIndex he
    right
    have hk : rf.raftIndex (rf.logs.length - 1) - rf.discardCount = rf.logs.length - 1 := by
      unfold raftIndex
      omega
    rw [hk] at he
    refine ⟨rf.logs.length - 1, e, he, ?_⟩
    rw [List.drop_eq_nil_of_le (by omega)]

/-- `sendApplyEntriesTo` ignores a reply, steps down, backs up, or takes the entries for replicated
and looks for something to commit. -/
lemma sendApplyEntriesTo_cases {server : Fin n} {args : ApplyEntriesArgs n C}
    {reply : ApplyEntriesReply} (h : rf.sendApplyEntriesTo server args reply = some rf') :
    rf' = rf ∨
    (rf.currentTerm < reply.term ∧ rf' = rf.stepDown reply.term) ∨
    (∃ index, rf' = { rf with nextIndex := Function.update rf.nextIndex server index }) ∨
    (rf.currentTerm ≤ reply.term ∧ reply.success = true ∧ args.entries ≠ [] ∧
      args.prevLogIndex + 1 = rf.nextIndex server ∧
      ({ rf with
        matchIndex := Function.update rf.matchIndex server
          (args.prevLogIndex + args.entries.length)
        nextIndex := Function.update rf.nextIndex server
          (args.prevLogIndex + args.entries.length + 1) } :
            Raft n C σ).updateCommittedIndex = some rf') := by
  unfold sendApplyEntriesTo at h
  split_ifs at h with h₁ h₂ h₃ h₄ h₅
  · cases h
    exact Or.inl rfl
  · cases h
    exact Or.inr (Or.inl ⟨h₄, rfl⟩)
  · cases h
    exact Or.inl rfl
  · obtain ⟨index, -, rfl⟩ := Option.map_eq_some_iff.1 h
    exact Or.inr (Or.inr (Or.inl ⟨index, rfl⟩))
  · have hm : args.prevLogIndex + 1 + args.entries.length - 1 =
        args.prevLogIndex + args.entries.length := by omega
    simp only [hm] at h
    exact Or.inr (Or.inr (Or.inr ⟨not_lt.1 h₁, by simpa using h₂, h₅.1, h₅.2, h⟩))
  · cases h
    exact Or.inl rfl

lemma sendInstallSnapshotTo_cases (rf : Raft n C σ) (server : Fin n)
    (args : InstallSnapshotArgs n C σ) (reply : InstallSnapshotReply) :
    rf.sendInstallSnapshotTo server args reply = rf ∨
    (rf.currentTerm < reply.term ∧
      rf.sendInstallSnapshotTo server args reply = rf.stepDown reply.term) ∨
    (reply.term = rf.currentTerm ∧ rf.matchIndex server ≤ args.lastIncludedIndex ∧
      rf.sendInstallSnapshotTo server args reply =
        { rf with
          matchIndex := Function.update rf.matchIndex server args.lastIncludedIndex
          nextIndex := Function.update rf.nextIndex server (args.lastIncludedIndex + 1) }) := by
  dsimp only [sendInstallSnapshotTo]
  split_ifs with h₁ h₂ h₃
  · exact Or.inl rfl
  · exact Or.inr (Or.inl ⟨h₂, rfl⟩)
  · exact Or.inr (Or.inr ⟨le_antisymm (not_lt.1 h₂) (not_lt.1 h₁), h₃, rfl⟩)
  · exact Or.inl rfl

/-! ### Committing -/

/-- The loop over the peers finds enough of them. -/
lemma replicatedLoop_true {index cnt : ℕ} {js : List (Fin n)} (hnd : js.Nodup)
    (h : rf.replicatedLoop index js cnt = true) :
    ∃ Q : Finset (Fin n), (∀ j ∈ Q, j ∈ js ∧ j ≠ rf.me ∧ index ≤ rf.matchIndex j) ∧
      n < 2 * (cnt + Q.card) := by
  induction js generalizing cnt with
  | nil => cases h
  | cons j js ih =>
    obtain ⟨hj, hnd⟩ := List.nodup_cons.1 hnd
    have hskip : rf.replicatedLoop index js cnt = true → ∃ Q : Finset (Fin n),
        (∀ i ∈ Q, i ∈ j :: js ∧ i ≠ rf.me ∧ index ≤ rf.matchIndex i) ∧
        n < 2 * (cnt + Q.card) := by
      intro h
      obtain ⟨Q, hQ, hcard⟩ := ih hnd h
      exact ⟨Q, fun i hi => ⟨List.mem_cons_of_mem _ (hQ i hi).1, (hQ i hi).2⟩, hcard⟩
    unfold replicatedLoop at h
    split_ifs at h with hme hmatch hmaj
    · exact hskip h
    · refine ⟨{j}, fun i hi => ?_, ?_⟩
      · rw [Finset.mem_singleton.1 hi]
        exact ⟨List.mem_cons_self, hme, hmatch⟩
      · rw [Finset.card_singleton]
        omega
    · obtain ⟨Q, hQ, hcard⟩ := ih hnd h
      have hjQ : j ∉ Q := fun hjQ => hj (hQ j hjQ).1
      refine ⟨insert j Q, fun i hi => ?_, ?_⟩
      · rcases Finset.mem_insert.1 hi with rfl | hi
        · exact ⟨List.mem_cons_self, hme, hmatch⟩
        · exact ⟨List.mem_cons_of_mem _ (hQ i hi).1, (hQ i hi).2⟩
      · rw [Finset.card_insert_of_notMem hjQ]
        omega
    · exact hskip h

/-- The loop over the positions stops at the last one that is replicated, or finds nothing. -/
lemma commitLoop_cases (rf : Raft n C σ) (low N : ℕ) :
    (rf.commitLoop low N = rf.committedIndex ∧ ∀ k, low ≤ k → k ≤ N →
      rf.committedIndex < rf.raftIndex k →
        rf.replicatedLoop (rf.raftIndex k) (List.finRange n) 1 = false) ∨
    ∃ k, low ≤ k ∧ k ≤ N ∧ rf.commitLoop low N = rf.raftIndex k ∧
      rf.committedIndex < rf.raftIndex k ∧
      rf.replicatedLoop (rf.raftIndex k) (List.finRange n) 1 = true ∧ ∀ k', k < k' → k' ≤ N →
        rf.replicatedLoop (rf.raftIndex k') (List.finRange n) 1 = false := by
  induction N with
  | zero =>
    unfold commitLoop
    split
    · rename_i h
      exact Or.inr ⟨0, h.1, le_rfl, rfl, h.2.1, h.2.2, fun k' h₁ h₂ => by omega⟩
    · rename_i h
      refine Or.inl ⟨rfl, fun k hlow hk hlt => ?_⟩
      obtain rfl : k = 0 := by omega
      by_contra hrep
      exact h ⟨hlow, hlt, by simpa using hrep⟩
  | succ N ih =>
    unfold commitLoop
    split_ifs with h₁ h₂
    · exact Or.inr ⟨N + 1, h₁.1, le_rfl, rfl, h₁.2, h₂, fun k' h₁ h₂ => by omega⟩
    · obtain ⟨h, hnone⟩ | ⟨k, hlow, hk, h, hlt, hrep, hmax⟩ := ih
      · refine Or.inl ⟨h, fun k hlow hk hlt => ?_⟩
        rcases Nat.lt_or_eq_of_le hk with hk | rfl
        · exact hnone k hlow (by omega) hlt
        · simpa using h₂
      · refine Or.inr ⟨k, hlow, hk.trans (Nat.le_succ N), h, hlt, hrep, fun k' h₁ hk' => ?_⟩
        rcases Nat.lt_or_eq_of_le hk' with hk' | rfl
        · exact hmax k' h₁ (by omega)
        · simpa using h₂
    · refine Or.inl ⟨rfl, fun k hlow hk hlt => absurd ⟨hlow.trans hk, ?_⟩ h₁⟩
      unfold raftIndex at hlt ⊢
      omega

/-- `updateCommittedIndex` keeps `committedIndex`, or moves it to an index between two entries of
the current term that a majority is known to have. -/
lemma updateCommittedIndex_cases (h : rf.updateCommittedIndex = some rf') :
    ∃ index, rf' = { rf with committedIndex := index } ∧ (index = rf.committedIndex ∨
      rf.committedIndex < index ∧ ∃ low k high elow ehigh, low ≤ k ∧ k ≤ high ∧ rf.logs[low]? = some elow ∧
        rf.logs[high]? = some ehigh ∧ elow.term = rf.currentTerm ∧ ehigh.term = rf.currentTerm ∧
        index = rf.raftIndex k ∧
        ∃ Q : Finset (Fin n), (∀ j ∈ Q, j ≠ rf.me ∧ index ≤ rf.matchIndex j) ∧
          n < 2 * (1 + Q.card)) := by
  unfold updateCommittedIndex at h
  obtain ⟨low, -, h⟩ := Option.bind_eq_some_iff.1 h
  split at h
  · cases h
    exact ⟨rf.committedIndex, rfl, Or.inl rfl⟩
  · rename_i hlow
    push Not at hlow
    obtain ⟨high, -, h⟩ := Option.bind_eq_some_iff.1 h
    split at h
    · cases h
    · rename_i hhigh
      push Not at hhigh
      cases h
      refine ⟨_, rfl, ?_⟩
      obtain ⟨h, -⟩ | ⟨k, hk, hk', h, hlt, hrep, -⟩ := commitLoop_cases rf low (high - 1)
      · exact Or.inl h
      · right
        obtain ⟨elow, helow, hlowt⟩ := Option.map_eq_some_iff.1 hlow.2
        obtain ⟨ehigh, hehigh, hhight⟩ := Option.map_eq_some_iff.1 hhigh.2
        obtain ⟨-, helow⟩ := entry_eq_some.1 helow
        obtain ⟨-, hehigh⟩ := entry_eq_some.1 hehigh
        have hpos : ((high : ℤ) - 1).toNat = high - 1 := by omega
        rw [hpos] at hehigh
        obtain ⟨Q, hQ, hcard⟩ := replicatedLoop_true (List.nodup_finRange n) hrep
        rw [h]
        exact ⟨hlt, low, k, high - 1, elow, ehigh, hk, hk', helow, hehigh, hlowt, hhight, rfl, Q,
          fun j hj => (hQ j hj).2, hcard⟩

/-! ### Delivering -/

/-- The commands that `applyLog` collects, one for each index. -/
lemma commandMsgs_spec {index count : ℕ} {msgs : List (ApplyMsg C σ)}
    (h : rf.commandMsgs index count = some msgs) :
    msgs.length = count ∧ ∀ (k : ℕ) msg, msgs[k]? = some msg → ∃ e,
      rf.entry (rf.realIndex (index + k)) = some e ∧ msg = .command e.command (index + k) := by
  induction count generalizing index msgs with
  | zero =>
    cases h
    exact ⟨rfl, fun k msg hk => by simp at hk⟩
  | succ count ih =>
    obtain ⟨e, he, h⟩ := Option.bind_eq_some_iff.1 h
    obtain ⟨rest, hrest, rfl⟩ := Option.map_eq_some_iff.1 h
    obtain ⟨hlen, hget⟩ := ih hrest
    refine ⟨by rw [List.length_cons, hlen], fun k msg hk => ?_⟩
    cases k with
    | zero =>
      cases hk
      exact ⟨e, he, rfl⟩
    | succ k =>
      obtain ⟨e', he', rfl⟩ := hget k msg hk
      rw [show index + (k + 1) = index + 1 + k by omega]
      exact ⟨e', he', rfl⟩

/-- The commands are read off the log. -/
lemma commandMsgs_congr (hl : rf.logs = rf'.logs) (hd : rf.discardCount = rf'.discardCount)
    (index count : ℕ) : rf.commandMsgs index count = rf'.commandMsgs index count := by
  induction count generalizing index with
  | zero => rfl
  | succ count ih =>
    unfold commandMsgs entry realIndex
    rw [hl, hd, ih]

/-- The messages of `applyLog`: the pending snapshot, then the commands that follow what has been
applied or is in the snapshot. -/
lemma applyLog_cases {msgs : List (ApplyMsg C σ)} (h : rf.applyLog = some (rf', msgs)) :
    ∃ snap cmds lastApplied, msgs = snap ++ cmds ∧
      rf' = { rf with applySnappending := false, lastApplied := lastApplied } ∧
      (rf.applySnappending = false ∧ snap = [] ∨
        rf.applySnappending = true ∧
          ∃ e : LogEntry C, snap = [.snapshot rf.snapshot e.term rf.lastIncludedIndex]) ∧
      (rf.committedIndex ≤ rf.lastApplied ∧ cmds = [] ∧ lastApplied = rf.lastApplied ∨
        rf.lastApplied < rf.committedIndex ∧
          rf.commandMsgs (max rf.lastApplied rf.lastIncludedIndex + 1)
            (rf.committedIndex - max rf.lastApplied rf.lastIncludedIndex) = some cmds ∧
          lastApplied = max (max rf.lastApplied rf.lastIncludedIndex) rf.committedIndex) := by
  unfold applyLog at h
  split at h
  · cases h
  · obtain ⟨snap, hsnap, h⟩ := Option.bind_eq_some_iff.1 h
    have hsnap' : rf.applySnappending = false ∧ snap = [] ∨
        rf.applySnappending = true ∧
          ∃ e : LogEntry C, snap = [.snapshot rf.snapshot e.term rf.lastIncludedIndex] := by
      split at hsnap
      · rename_i hp
        obtain ⟨e, -, rfl⟩ := Option.map_eq_some_iff.1 hsnap
        exact Or.inr ⟨hp, e, rfl⟩
      · rename_i hp
        cases hsnap
        exact Or.inl ⟨by simpa using hp, rfl⟩
    have hbase : (if rf.lastApplied < rf.lastIncludedIndex then rf.lastIncludedIndex
        else rf.lastApplied) = max rf.lastApplied rf.lastIncludedIndex := by
      split <;> omega
    dsimp only at h
    rw [hbase] at h
    split at h
    · rename_i hlt
      obtain ⟨cmds, hcmds, h⟩ := Option.map_eq_some_iff.1 h
      cases h
      refine ⟨snap, cmds, _, rfl, rfl, hsnap', Or.inr ⟨hlt, ?_, rfl⟩⟩
      rw [← hcmds]
      refine commandMsgs_congr ?_ ?_ _ _ <;> rfl
    · rename_i hlt
      cases h
      exact ⟨_, [], rf.lastApplied, (List.append_nil _).symm, rfl, hsnap',
        Or.inl ⟨not_lt.1 hlt, rfl, rfl⟩⟩

end Raft

end RaftLabs
