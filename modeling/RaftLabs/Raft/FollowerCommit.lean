import RaftLabs.Raft.Commit

/-!
# What a follower commits on the word of its leader

`ApplyEntries` bounds the new `committedIndex` by `LeaderCommit` and by the first new entry or, for a
heartbeat without entries, by the end of the follower's own log, which may be a suffix the leader does
not have.  That this is safe depends on `sendHeartBeat`: a message without entries has the leader's
last index for its `PrevLogIndex`, so nothing beyond the place that the check has compared is
committed.  The leader and the follower may both have compacted their logs, each at its own index,
and the message may arrive when the leader's log is longer.
-/

namespace RaftLabs

variable {n : ℕ} {C σ : Type} [Inhabited C]

namespace Raft

variable {rf rf' : Raft n C σ} {log log' : List (LogEntry C)} {args : ApplyEntriesArgs n C}

/-- **Log matching**: where an entry of the server has the term of the log's entry with that index,
the two agree up to there, as far as the server has not compacted. -/
def LogMatches (rf : Raft n C σ) (log : List (LogEntry C)) : Prop :=
  ∀ i e, 0 < i → rf.entry (rf.realIndex i) = some e →
    (log[i - 1]?).map LogEntry.term = some e.term →
    ∀ j, rf.lastIncludedIndex < j → j ≤ i → rf.entry (rf.realIndex j) = log[j - 1]?

/-! ### The two ends of a message -/

/-- A heartbeat without entries is about the leader's last index. -/
lemma heartBeatTo_prev {i : Fin n} (h : rf.heartBeatTo i = some (.applyEntries args)) :
    args.leaderCommit = rf.committedIndex ∧
    ∃ k e, rf.logs[k]? = some e ∧ args.prevLogIndex = rf.raftIndex k ∧ args.prevLogTerm = e.term ∧
      args.entries = rf.logs.drop (k + 1) ∧ (args.entries = [] → k = rf.logs.length - 1) := by
  obtain ⟨e, -, -, heq⟩ | ⟨k, e, he, heq⟩ := heartBeatTo_cases h
  · cases heq
  · cases heq
    obtain ⟨hlt, -⟩ := List.getElem?_eq_some_iff.1 he
    refine ⟨rfl, k, e, he, rfl, rfl, rfl, fun hnil => ?_⟩
    have := List.drop_eq_nil_iff.1 hnil
    omega

/-- `ApplyEntries` raises `committedIndex` when its check has passed, and within its two bounds. -/
lemma applyEntries_raises {reply : ApplyEntriesReply} (h : rf.applyEntries args = some (rf', reply))
    (hlt : rf.committedIndex < rf'.committedIndex) :
    rf'.committedIndex ≤ args.leaderCommit ∧ rf'.committedIndex ≤ rf.commitBound args ∧
    rf.discardCount ≤ args.prevLogIndex ∧
    (∃ e, rf.logs[args.prevLogIndex - rf.discardCount]? = some e ∧ e.term = args.prevLogTerm) ∧
    rf'.store = (rf.store.splice args).save := by
  have hprog := progress_applyEntries h
  split at hprog
  · rename_i hc
    obtain ⟨hle, he⟩ := replicateCheck_true hc.2
    have hindex : rf'.committedIndex = rf.acceptedIndex args :=
      congrArg Progress.committedIndex hprog
    have hstore : rf'.store = (rf.store.splice args).save := by
      cases (applyEntries_of_check hc.1 hc.2).symm.trans h
      rw [store_persist, store_acceptEntries args (by rw [followLeader_eq rf hc.1]; exact hle),
        store_followLeader hc.1]
    unfold acceptedIndex at hindex
    split at hindex
    · rw [hindex]
      exact ⟨min_le_left _ _, min_le_right _ _, hle, he, hstore⟩
    · omega
  · exact absurd (congrArg Progress.committedIndex hprog) (ne_of_gt hlt)

/-- **A follower commits only what it shares with its leader.**  `log` is the leader's log when it
sends the message and `log'` what it has grown to when the message arrives. -/
theorem follower_commits_shared {leader follower follower' : Raft n C σ}
    {calls : List (Fin n × Rpc n C σ)} {i : Fin n} {reply : ApplyEntriesReply}
    (hleader : leader.Keeps log)
    (hcommit : leader.committedIndex ≤ leader.raftIndex (leader.logs.length - 1))
    (hsend : leader.sendHeartBeat = some calls) (hcall : (i, .applyEntries args) ∈ calls)
    (hgrown : log <+: log') (hdiscard : follower.discardCount = follower.lastIncludedIndex)
    (hmatch : follower.LogMatches log')
    (happly : follower.applyEntries args = some (follower', reply))
    (hraise : follower.committedIndex < follower'.committedIndex) :
    ∀ j, follower'.lastIncludedIndex < j → j ≤ follower'.committedIndex →
      ∃ e, follower'.entry (follower'.realIndex j) = some e ∧ log'[j - 1]? = some e := by
  obtain ⟨hlc, k, p, hp, hprev, hpt, hes, hlast⟩ := heartBeatTo_prev (mem_sendHeartBeat hsend hcall).2
  obtain ⟨hle, hbound, hdisc, ⟨x, hx, hxt⟩, hstore⟩ := applyEntries_raises happly hraise
  have hlogs : follower'.logs = (follower.store.splice args).logs := congrArg Store.logs hstore
  have hdisc' : follower'.discardCount = follower.discardCount := congrArg Store.discardCount hstore
  intro j hlo hhi
  rw [show follower'.lastIncludedIndex = follower.lastIncludedIndex from
    congrArg Store.lastIncludedIndex hstore, ← hdiscard] at hlo
  have hentry : ∀ {y}, (follower.store.splice args).logs[j - follower.discardCount]? = some y →
      follower'.entry (follower'.realIndex j) = some y := fun hy =>
    entry_of_realIndex (hdisc' ▸ hlo.le) (by rw [hdisc', hlogs]; exact hy)
  have hkept : ∀ {m : ℕ} {y : LogEntry C}, log[m]? = some y → log'[m]? = some y := by
    intro m y hy
    obtain ⟨hm, rfl⟩ := List.getElem?_eq_some_iff.1 hy
    exact List.prefix_iff_getElem?.1 hgrown m hm
  rcases Nat.lt_or_ge args.prevLogIndex j with hlt | hge
  · -- beyond the previous index only the first new entry is committed, never one of a heartbeat
    have hne : args.entries ≠ [] := fun hnil => by
      rw [hlast hnil] at hprev
      omega
    unfold commitBound at hbound
    rw [if_pos hne] at hbound
    obtain rfl : j = args.prevLogIndex + 1 := by omega
    have hpos := List.length_pos_iff.2 hne
    obtain ⟨y, hy⟩ : ∃ y, args.entries[0]? = some y := ⟨_, List.getElem?_eq_getElem hpos⟩
    refine ⟨y, hentry ?_, ?_⟩
    · rw [← hy]
      exact Store.splice_getElem?_entries (b := follower.store) hx hpos
    · rw [hes, hleader.drop, List.getElem?_drop, ← hprev, Nat.add_zero] at hy
      exact hkept hy
  · -- up to there the check has compared the last term
    obtain ⟨z, hz, hzt⟩ := Option.map_eq_some_iff.1 (hleader.term hp (by omega))
    rw [← hprev] at hz
    have hshared := hmatch args.prevLogIndex x (by omega) (entry_of_realIndex hdisc hx)
      (by rw [hkept hz, hxt, hpt]; exact congrArg some hzt) j (hdiscard ▸ hlo) hge
    obtain ⟨hlen, -⟩ := List.getElem?_eq_some_iff.1 (hkept hz)
    obtain ⟨y, hy⟩ : ∃ y, log'[j - 1]? = some y := ⟨_, List.getElem?_eq_getElem (by omega)⟩
    refine ⟨y, hentry ?_, hy⟩
    rw [Store.splice_getElem?_of_lt (b := follower.store) hx
      (show j - follower.discardCount < args.prevLogIndex + 1 - follower.discardCount by omega)]
    exact (entry_realIndex (hshared.trans hy)).2

/-- A leader of term `3` that has compacted its log at index `1` and committed two entries. -/
def compactingLeader : Raft 3 ℕ ℕ :=
  { make 0 ⟨none, none⟩ with
    currentTerm := 3
    identity := .leader
    logs := [⟨0, 1⟩, ⟨20, 2⟩]
    discardCount := 1
    lastIncludedIndex := 1
    committedIndex := 2
    nextIndex := fun _ => 3 }

/-- A follower that has both entries and, after them, one that its leader does not have. -/
def divergingFollower : Raft 3 ℕ ℕ :=
  { make 1 ⟨none, none⟩ with
    currentTerm := 2
    logs := [default, ⟨10, 1⟩, ⟨20, 2⟩, ⟨99, 2⟩] }

/-- The leader has stored `30` when its heartbeat arrives: the follower commits the two entries it
shares with the leader, and not its own third. -/
theorem follower_commits_shared_diverging :
    ∃ follower' reply, divergingFollower.applyEntries ⟨3, 0, 2, 2, [], 2⟩ = some (follower', reply) ∧
      follower'.committedIndex = 2 ∧ ∀ j, follower'.lastIncludedIndex < j →
        j ≤ follower'.committedIndex → ∃ e, follower'.entry (follower'.realIndex j) = some e ∧
          ([⟨10, 1⟩, ⟨20, 2⟩, ⟨30, 3⟩] : List (LogEntry ℕ))[j - 1]? = some e := by
  have hsend : ∃ calls, compactingLeader.sendHeartBeat = some calls ∧
      (1, .applyEntries ⟨3, 0, 2, 2, [], 2⟩) ∈ calls := ⟨_, rfl, List.mem_cons_self⟩
  obtain ⟨calls, hcalls, hcall⟩ := hsend
  have hkeeps : compactingLeader.Keeps [⟨10, 1⟩, ⟨20, 2⟩] := ⟨rfl, fun _ => rfl, rfl⟩
  have hmatch : divergingFollower.LogMatches [⟨10, 1⟩, ⟨20, 2⟩, ⟨30, 3⟩] := by
    intro i e hpos he ht j hlo hji
    have hlen := (List.getElem?_eq_some_iff.1 (entry_realIndex he).2).1
    change i < 4 at hlen
    change 0 < j at hlo
    interval_cases i
    · interval_cases j
      rfl
    · interval_cases j <;> rfl
    · cases he
      cases ht
  have hrun : (divergingFollower.applyEntries ⟨3, 0, 2, 2, [], 2⟩).map (·.1.committedIndex) =
      some 2 := by decide +kernel
  obtain ⟨⟨follower', reply⟩, happly, hci⟩ := Option.map_eq_some_iff.1 hrun
  change follower'.committedIndex = 2 at hci
  refine ⟨follower', reply, happly, hci, ?_⟩
  exact follower_commits_shared hkeeps (by decide) hcalls hcall ⟨[⟨30, 3⟩], rfl⟩ rfl hmatch happly
    (by rw [hci]; decide)

end Raft

end RaftLabs
