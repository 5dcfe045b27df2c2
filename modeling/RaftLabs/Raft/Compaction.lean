import RaftLabs.Raft.StateMachine

/-!
# Compaction and restart

`Logs` is a window on the log: `DiscardCount` is added to a position to give the raft index, and slot
`0` is kept for the term of the last entry that is gone.  `Snapshot`, `InstallSnapshot` and `Make` move
the window.  What they leave of the log above it is the same as before, in every state of every run;
and slot `0` is right as long as every server's log reaches as far as the service above it has been
delivered (`LogsReach`).  This is so in the runs that heed `Raft.HoldsHidden` (`Run.logsReach`).  The run
`overwritten` does not: there a server snapshots at an index beyond the end of its log, and keeps in
slot `0` an entry of another index.
-/

namespace RaftLabs

open Lib

variable {n : ℕ} {C σ : Type} [Inhabited C]

/-! ### The entries above the snapshot -/

omit [Inhabited C] in
lemma Store.discard_getElem? {b : Store C σ} {index j : ℕ} (hd : b.discardCount ≤ index)
    (hj : index < j) : (b.discard index).logs[j - index]? = b.logs[j - b.discardCount]? := by
  change (b.logs.drop (min (b.logs.length - 1) (index - b.discardCount)))[j - index]? = _
  rw [List.getElem?_drop]
  rcases Nat.le_total (index - b.discardCount) (b.logs.length - 1) with h | h
  · rw [min_eq_right h]
    congr 1
    omega
  · rw [min_eq_left h, List.getElem?_eq_none (by omega), List.getElem?_eq_none (by omega)]

namespace Raft

variable {rf rf' : Raft n C σ}

lemma entry_realIndex_eq {k : ℕ} (hk : rf.discardCount ≤ k) :
    rf.entry (rf.realIndex k) = rf.logs[k - rf.discardCount]? := by
  apply Option.ext
  intro e
  exact ⟨fun h => (entry_realIndex h).2, entry_of_realIndex hk⟩

/-- Above the snapshot of `rf'` every index has the entry that it has in `rf`. -/
def SameAbove (rf rf' : Raft n C σ) : Prop :=
  ∀ j, rf'.lastIncludedIndex < j → rf'.entry (rf'.realIndex j) = rf.entry (rf.realIndex j)

/-- The entries depend on the log alone. -/
lemma entry_congr (h : rf'.store.logs = rf.store.logs)
    (hd : rf'.store.discardCount = rf.store.discardCount) (j : ℕ) :
    rf'.entry (rf'.realIndex j) = rf.entry (rf.realIndex j) := by
  change rf'.logs = rf.logs at h
  change rf'.discardCount = rf.discardCount at hd
  unfold entry realIndex
  rw [h, hd]

/-- The window is moved up to `index`. -/
lemma sameAbove_discard {index : ℕ} (hd : rf.discardCount ≤ index)
    (hlogs : rf'.logs = (rf.store.discard index).logs) (hdisc : rf'.discardCount = index)
    (hincl : rf'.lastIncludedIndex = index) : rf.SameAbove rf' := by
  intro j hj
  rw [entry_realIndex_eq (by omega), entry_realIndex_eq (by omega), hlogs, hdisc]
  exact Store.discard_getElem? hd (hincl ▸ hj)

lemma sameAbove_callSnapshot (hd : rf.discardCount = rf.lastIncludedIndex) (index : ℕ)
    (data : Snapshot C σ) : rf.SameAbove (rf.callSnapshot index data) := by
  obtain ⟨-, h⟩ | ⟨hlt, h⟩ := store_callSnapshot rf index data
  · rw [h]
    exact fun _ _ => rfl
  · exact sameAbove_discard (hd ▸ hlt.le) (congrArg Store.logs h) (congrArg Store.discardCount h)
      (congrArg Store.lastIncludedIndex h)

/-- `InstallSnapshot` keeps the suffix when the log has the last entry of the snapshot. -/
lemma sameAbove_installSnapshot {args : InstallSnapshotArgs n C σ} (hc : rf.store.Covers args) :
    rf.SameAbove (rf.installSnapshot args).1 := by
  obtain h | ⟨-, -, -, h⟩ := store_installSnapshot rf args
  · exact fun j _ => entry_congr (congrArg Store.logs h) (congrArg Store.discardCount h) j
  · have hinst : rf.store.install args =
        { rf.store.discard args.lastIncludedIndex with snapshot := args.data } := if_pos hc
    rw [hinst] at h
    exact sameAbove_discard hc.1.le (congrArg Store.logs h) (congrArg Store.discardCount h)
      (congrArg Store.lastIncludedIndex h)

/-- The last log index, as the code computes it. -/
lemma logical_length (hc : rf.store.Covered) :
    rf.logical.length = rf.raftIndex (rf.logs.length - 1) :=
  (Store.logical_length hc).trans (Nat.add_comm _ _)

/-- `Make` reads back the log and the snapshot, and takes up where the snapshot ends. -/
lemma make_restores (h : rf.store.Shape) (me : Fin n) :
    (make me rf.persister : Raft n C σ).store = rf.store ∧
    (make me rf.persister : Raft n C σ).committedIndex = rf.lastIncludedIndex ∧
    (make me rf.persister : Raft n C σ).lastApplied = rf.lastIncludedIndex := by
  have hindex : (rf.persister.snapshot.map Snapshot.index).getD 0 = rf.lastIncludedIndex := by
    have hstable : rf.persister.snapshot = rf.snapshot := h.stableSnapshot
    rw [hstable]
    exact h.index.symm
  have hprog := progress_make me rf.persister
  rw [hindex] at hprog
  exact ⟨(store_make me).trans h.restart, congrArg Progress.committedIndex hprog,
    congrArg Progress.lastApplied hprog⟩

end Raft

/-! ### Slot `0` -/

namespace Cluster

variable {H : Raft n C (List C) → ApplyEntriesArgs n C → Prop} {s s' : Cluster n C}
  {past : List (Cluster n C)}

/-- No service has been delivered more than the log underneath it reaches. -/
def LogsReach (s : Cluster n C) : Prop :=
  ∀ i, (s.nodes i).applied.length ≤ (s.raft i).raftIndex ((s.raft i).logs.length - 1)

instance (s : Cluster n C) : Decidable s.LogsReach := inferInstanceAs (Decidable (∀ _, _))

/-- The runs all of whose states are such. -/
abbrev Reaching (s : Cluster n C) (_ : Event n C) : Prop := s.LogsReach

/-- Every snapshot, on a server or on its way, stands for the entries up to its index, and the term
that goes with it is that of the last of them. -/
structure Whole (s : Cluster n C) : Prop where
  covered : ∀ i, (s.raft i).store.Covered
  carried : ∀ p ∈ s.net, ∀ args, p.rpc = .installSnapshot args →
    (coveredBy args.data).length = args.lastIncludedIndex ∧
      lastTerm LogEntry.term (coveredBy args.data) = args.lastIncludedTerm

lemma whole_of_reaching (htr : Trace (step (n := n) (C := C)) Reaching init (s :: past)) :
    s.Whole := by
  refine Trace.invariant (P := fun s _ => s.Whole) ?_ ?_ htr
  · refine ⟨fun i => ⟨rfl, fun e he => ?_⟩, fun p hp => by cases hp⟩
    cases he
    rfl
  · intro s past e₀ s' htr hi hreach hs
    have hrun : Run Unrestricted (s :: past) := htr.mono fun s e _ => heeds_unrestricted s e
    have hshape := (Run.shapely hrun).1
    obtain ⟨i, node, got, sent, hturn, hm⟩ := step_turn (heeds_unrestricted s e₀) hs
    have hc := hi.covered i
    have hnode : node.raft.store.Covered := by
      rcases hturn.store_cases with (h | h) | ⟨c, -, -, h⟩ |
        ⟨p, args, rfl, -, -, -, hle, ⟨x, hx, -⟩, -, h⟩ | ⟨index, happ, hlt, h⟩ |
        ⟨p, args, rfl, -, hr, -, -, -, h⟩ | ⟨-, h⟩
      · rw [h]
        exact hc
      · rw [h]
        exact hc.save
      · rw [h]
        exact (Store.covered_append hc (hshape i).logs_ne _).save
      · rw [h]
        exact (Store.covered_splice hc hle hx).save
      · rw [h]
        refine (Store.covered_compact hc _ ((hshape i).discard.le.trans hlt.le) ?_).save
        exact Raft.logical_length hc ▸ happ.trans (hreach i)
      · rw [h]
        obtain ⟨hlen, hterm⟩ := hi.carried p hm.mem_got args hr
        exact (Store.covered_install hlen hterm).save
      · rw [h]
        exact (hshape i).restart.symm ▸ hc
    refine ⟨?_, fun p hp args hr => ?_⟩
    · exact hm.forall_nodes (P := fun _ node => node.raft.store.Covered) hnode
        fun j _ => hi.covered j
    · rcases hm.mem_net hp with hp | hp
      · exact hi.carried p hp args hr
      · have h := hturn.sent_beat hp (Or.inr ⟨args, hr⟩)
        rw [hr] at h
        obtain ⟨e, he, -, h⟩ | ⟨k, e, -, h⟩ := Raft.heartBeatTo_cases h
        · cases h
          have hshape' : node.raft.store.Shape := hm.raft_self ▸ (Run.shapely
            (.step e₀ hrun (heeds_unrestricted s e₀) hs)).1 i
          exact ⟨hnode.length.trans hshape'.discard, (hnode.slot e he).symm⟩
        · cases h

/-- Where the follower has what it has acknowledged, no log falls short of what was delivered. -/
theorem Run.logsReach (htr : Run Raft.HoldsHidden (s :: past)) : s.LogsReach := by
  intro i
  have hsound := htr.inv.sound i
  obtain ⟨q, -, happ, hlen⟩ := (htr.inv.served i).applied
  rw [happ, List.length_map, ← Raft.logical_length hsound.covered]
  exact hlen.trans (max_le hsound.applied.1 hsound.included.1)

/-- **Compaction and restart preserve the log**, in every run in which the logs reach what has been
delivered: slot `0` has the term of the entry at `lastIncludedIndex`; `Snapshot` and `InstallSnapshot`,
when it keeps the suffix, change no entry above the new `lastIncludedIndex`, and `Snapshot` not the
logical log; `Make` restores the entries and `lastIncludedIndex`, and starts from there. -/
theorem compaction_preserves_log (h : Reachable step Reaching init s) (i : Fin n) :
    (s.raft i).logs ≠ [] ∧ (s.raft i).Keeps (s.raft i).logical ∧
    (∀ index data, (s.raft i).SameAbove ((s.raft i).callSnapshot index data)) ∧
    (∀ index data, index ≤ (s.raft i).raftIndex ((s.raft i).logs.length - 1) →
      ((s.raft i).callSnapshot index data).logical = (s.raft i).logical) ∧
    (∀ args, (s.raft i).store.Covers args →
      (s.raft i).SameAbove ((s.raft i).installSnapshot args).1) ∧
    (∀ j, (s.nodes i).restart.raft.entry ((s.nodes i).restart.raft.realIndex j) =
      (s.raft i).entry ((s.raft i).realIndex j)) ∧
    (s.nodes i).restart.raft.logical = (s.raft i).logical ∧
    (s.nodes i).restart.raft.lastIncludedIndex = (s.raft i).lastIncludedIndex ∧
    (s.nodes i).restart.raft.committedIndex = (s.raft i).lastIncludedIndex ∧
    (s.nodes i).restart.raft.lastApplied = (s.raft i).lastIncludedIndex := by
  obtain ⟨past, htr⟩ := h
  have hrun : Run Unrestricted (s :: past) := htr.mono fun s e _ => heeds_unrestricted s e
  have hshape := (Run.shapely hrun).1 i
  have hc := (whole_of_reaching htr).covered i
  obtain ⟨hstore, hci, hla⟩ := Raft.make_restores hshape (s.raft i).me
  refine ⟨hshape.logs_ne, Raft.keeps_logical hshape hc,
    Raft.sameAbove_callSnapshot hshape.discard, fun index data hle => ?_,
    fun args => Raft.sameAbove_installSnapshot,
    Raft.entry_congr (congrArg Store.logs hstore) (congrArg Store.discardCount hstore),
    congrArg Store.logical hstore, congrArg Store.lastIncludedIndex hstore, hci, hla⟩
  obtain ⟨-, h⟩ | ⟨hlt, h⟩ := Raft.store_callSnapshot (s.raft i) index data
  · rw [h]
  · have hhi := hle.trans_eq (Raft.logical_length hc).symm
    exact (congrArg Store.logical h).trans
      (Store.logical_compact hc data (hshape.discard.le.trans hlt.le) hhi)

/-- Server `1` has taken over and delivered one command, and snapshots there. -/
theorem compaction_preserves_log_first_snapshot : ∃ s : Cluster 3 ℕ,
    Reachable step Reaching init s ∧ (s.raft 1).lastIncludedIndex = 1 ∧
      (s.raft 1).Keeps (s.raft 1).logical ∧ (s.nodes 1).restart.raft.committedIndex = 1 := by
  have hrun : (run (guarded step Reaching) (init : Cluster 3 ℕ) (hiddenEntries.take 16)).map
      (fun s => (s.raft 1).lastIncludedIndex) = some 1 := by decide +kernel
  obtain ⟨s, hs, hincl⟩ := Option.map_eq_some_iff.1 hrun
  have hreach := Reachable.init.run_guarded hs
  obtain ⟨-, hkeeps, -, -, -, -, -, -, hci, -⟩ := compaction_preserves_log hreach 1
  exact ⟨s, hreach, hincl, hkeeps, hci.trans hincl⟩

/-- As in `hiddenEntries`, with two commands that server `1` acknowledges and does not store: server
`0` delivers `10`, `20` and `21`, and its log is overwritten with `10`, `30` by the next leader. -/
def overwritten : List (Event 3 ℕ) :=
  hiddenEntries.take 16 ++ [.start 0 20, .start 0 21, .drop 0, .drop 0, .deliver 0, .deliver 1,
    .drop 0, .applyLog 0, .applyMsg 0, .applyMsg 0, .applyMsg 0, .electionTimeout 1, .deliver 1,
    .deliver 1, .drop 0, .start 1 30, .deliver 0]

/-- **Without the condition slot `0` is wrong**: a snapshot at the index `3` that was delivered leaves
there the entry of index `2`. -/
theorem overwritten_not_kept : ∃ s s' : Cluster 3 ℕ, Reachable step anyStep init s ∧
    step s (.snapshot 0 3) = some s' ∧ (s.nodes 0).applied = [10, 20, 21] ∧
    (s.raft 0).entry ((s.raft 0).realIndex 2) = some ⟨30, 2⟩ ∧
    (s'.raft 0).lastIncludedIndex = 3 ∧ (s'.raft 0).logs = [⟨30, 2⟩] ∧
    ¬ (s'.raft 0).Keeps (s'.raft 0).logical := by
  have hrun : ((run step (init : Cluster 3 ℕ) overwritten).bind fun s =>
      (step s (.snapshot 0 3)).map fun s' => decide ((s.nodes 0).applied = [10, 20, 21] ∧
        (s.raft 0).entry ((s.raft 0).realIndex 2) = some ⟨30, 2⟩ ∧
        (s'.raft 0).lastIncludedIndex = 3 ∧ (s'.raft 0).logs = [⟨30, 2⟩] ∧
        (s'.raft 0).logical.length = 2)) = some true := by
    decide +kernel
  obtain ⟨s, hs, hrun⟩ := Option.bind_eq_some_iff.1 hrun
  obtain ⟨s', hs', heq⟩ := Option.map_eq_some_iff.1 hrun
  obtain ⟨h₁, h₂, hincl, hlogs, hlen⟩ := of_decide_eq_true heq
  refine ⟨s, s', Reachable.init.run hs, hs', h₁, h₂, hincl, hlogs, fun hkeeps => ?_⟩
  have := hkeeps.slot (by omega)
  rw [hincl, hlogs, List.getElem?_eq_none (by omega)] at this
  cases this

end Cluster

end RaftLabs
