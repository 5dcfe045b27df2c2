import RaftLabs.Raft.Replication

/-!
# Replication, turn by turn

What the messages of a run carry (`Carries`), and that every turn of a server keeps `Sound` and puts
on the network only what `Carries` says.

One answer of the code stands outside of the argument: a follower whose snapshot reaches beyond
`PrevLogIndex` answers `Success` to an `ApplyEntries` without looking at the entries.  `HoldsHidden`
is the condition under which this answer is right.
-/

namespace RaftLabs

open Lib

variable {n : ℕ} {C σ : Type} [Inhabited C]

/-- If the snapshot of the server covers a part of the entries and not the rest, the server has the
last of them, by its term. -/
def Raft.HoldsHidden (rf : Raft n C σ) (args : ApplyEntriesArgs n C) : Prop :=
  rf.currentTerm ≤ args.term → args.prevLogIndex < rf.lastIncludedIndex →
    rf.lastIncludedIndex < args.prevLogIndex + args.entries.length →
    (rf.entry (rf.realIndex (args.prevLogIndex + args.entries.length))).map LogEntry.term =
      args.entries.getLast?.map LogEntry.term

instance (rf : Raft n C σ) (args : ApplyEntriesArgs n C) : Decidable (rf.HoldsHidden args) :=
  inferInstanceAs (Decidable (_ → _ → _ → _))

namespace Cluster

variable {H : Raft n C (List C) → ApplyEntriesArgs n C → Prop} {s s' : Cluster n C}
  {past tr : List (Cluster n C)} {i : Fin n}

/-! ### What the messages carry -/

/-- The entries of an `ApplyEntries` are the end of the log `l` of its leader. -/
structure Entries (tr : List (Cluster n C)) (args : ApplyEntriesArgs n C)
    (l : List (LogEntry C)) : Prop where
  leader : LeaderLog tr args.term l
  prev : args.prevLogIndex ≤ l.length
  prevTerm : lastTerm LogEntry.term (l.take args.prevLogIndex) = args.prevLogTerm
  entries : args.entries = l.drop args.prevLogIndex
  commit : args.leaderCommit ≤ l.length
  safe : (ledger tr).Safe LogEntry.term args.term (l.take args.leaderCommit)

/-- The snapshot of an `InstallSnapshot` stands for a committed piece of its leader's log. -/
structure Snap (tr : List (Cluster n C)) (args : InstallSnapshotArgs n C (List C)) : Prop where
  leader : ∃ m, LeaderLog tr args.term m ∧ coveredBy args.data <+: m
  safe : (ledger tr).Safe LogEntry.term args.term (coveredBy args.data)
  length : (coveredBy args.data).length = args.lastIncludedIndex
  last : lastTerm LogEntry.term (coveredBy args.data) = args.lastIncludedTerm
  state : ∀ d, args.data = some d → d.state = d.covered.map LogEntry.command

/-- Server `i` has had a snapshot up to `index`. -/
def Included (tr : List (Cluster n C)) (i : Fin n) (index : ℕ) : Prop :=
  ∃ s ∈ tr, index ≤ (s.raft i).lastIncludedIndex

/-- What holds of a packet on the network after the run `tr`. -/
def Carries (tr : List (Cluster n C)) (p : Packet n C) : Prop :=
  match p.rpc with
  | .requestVote args => ∃ e, CandidateLog tr p.caller args.term e ∧
      args.lastLogIndex = e.length ∧ args.lastLogTerm = lastTerm LogEntry.term e
  | .requestVoteReply _ _ _ => True
  | .applyEntries args => ∃ l, Entries tr args l
  | .applyEntriesReply args reply log => reply.success = true → reply.term = args.term ∧
      ∃ l, Entries tr args l ∧ (ledger tr).Acked p.callee args.term l ∧ l <+: log
  | .installSnapshot args => Snap tr args ∧ Included tr p.caller args.lastIncludedIndex
  | .installSnapshotReply args reply log =>
      Snap tr args ∧ Included tr p.caller args.lastIncludedIndex ∧
      (reply.term = args.term → coveredBy args.data <+: log)

lemma Entries.mono {args : ApplyEntriesArgs n C} {l : List (LogEntry C)}
    (h : Entries past args l) : Entries (s :: past) args l :=
  ⟨h.leader.mono, h.prev, h.prevTerm, h.entries, h.commit, h.safe.le ledger_le⟩

omit [Inhabited C] in
lemma Entries.length {args : ApplyEntriesArgs n C} {l : List (LogEntry C)} (h : Entries tr args l) :
    args.prevLogIndex + args.entries.length = l.length := by
  have := h.prev
  rw [h.entries, List.length_drop]
  omega

lemma Snap.mono {args : InstallSnapshotArgs n C (List C)} (h : Snap past args) :
    Snap (s :: past) args := by
  obtain ⟨m, hm, hpre⟩ := h.leader
  exact ⟨⟨m, hm.mono, hpre⟩, h.safe.le ledger_le, h.length, h.last, h.state⟩

omit [Inhabited C] in
lemma Included.mono {index : ℕ} (h : Included past i index) : Included (s :: past) i index := by
  obtain ⟨s₁, hs₁, h⟩ := h
  exact ⟨s₁, List.mem_cons_of_mem _ hs₁, h⟩

lemma Carries.mono {p : Packet n C} (h : Carries past p) : Carries (s :: past) p := by
  unfold Carries at h ⊢
  split at h
  · obtain ⟨e, he, h⟩ := h
    exact ⟨e, he.mono, h⟩
  · trivial
  · obtain ⟨l, hl⟩ := h
    exact ⟨l, hl.mono⟩
  · intro hsuc
    obtain ⟨ht, l, hl, hack, hlog⟩ := h hsuc
    exact ⟨ht, l, hl.mono, hack.le ledger_le, hlog⟩
  · exact ⟨h.1.mono, h.2.mono⟩
  · exact ⟨h.1.mono, h.2.1.mono, h.2.2⟩

/-! ### Messages of a leader -/

lemma Run.leader_stable (htr : Run H (s :: past)) (hl : (s.raft i).identity = .leader) :
    (s.raft i).stableTerm = (s.raft i).currentTerm :=
  ((Run.ballot_ok htr i).2.inSync_of_active fun hf => by cases hl.symm.trans hf).1

lemma Run.discard (htr : Run H (s :: past)) (i : Fin n) :
    (s.raft i).discardCount = (s.raft i).lastIncludedIndex := (htr.shapely.1 i).discard

/-- What the snapshot stands for, in the logical log. -/
lemma Sound.covered_eq (htr : Run H (s :: past)) (h : Sound (s :: past) i (s.raft i)) :
    (s.raft i).logical.take (s.raft i).lastIncludedIndex = coveredBy (s.raft i).snapshot := by
  rw [← htr.discard i]
  exact Store.logical_take_discard h.covered

lemma Sound.logical_length (h : Sound (s :: past) i (s.raft i)) :
    (s.raft i).logical.length = (s.raft i).discardCount + ((s.raft i).logs.length - 1) :=
  Store.logical_length h.covered

lemma Sound.lastTerm_eq (h : Sound (s :: past) i (s.raft i)) {last : LogEntry C}
    (hlast : (s.raft i).logs[(s.raft i).logs.length - 1]? = some last) :
    lastTerm LogEntry.term (s.raft i).logical = last.term := by
  have hterm := Store.lastTerm_logical h.covered hlast
  rwa [List.take_of_length_le (by exact h.logical_length.le)] at hterm

/-- **A leader sends what it has.** -/
lemma Sound.heartBeat (htr : Run H (s :: past)) (h : Sound (s :: past) i (s.raft i))
    (hl : (s.raft i).identity = .leader) {p : Packet n C} (hp : p.caller = i)
    (hb : (s.raft i).heartBeatTo p.callee = some p.rpc) : Carries (s :: past) p := by
  have hstable := htr.leader_stable hl
  have hlog : LeaderLog (s :: past) (s.raft i).currentTerm (s.raft i).logical :=
    ⟨s, List.mem_cons_self, i, hl, rfl, rfl⟩
  have hlen := h.logical_length
  obtain ⟨e, he, -, hrpc⟩ | ⟨k, e, he, hrpc⟩ := Raft.heartBeatTo_cases hb
  · unfold Carries
    rw [hrpc]
    refine ⟨⟨⟨_, hlog, Store.covered_prefix h.covered⟩, ?_, ?_, ?_, h.state⟩, s, List.mem_cons_self,
      by rw [hp]⟩
    · change (ledger (s :: past)).Safe _ (s.raft i).currentTerm (coveredBy (s.raft i).snapshot)
      rw [← h.covered_eq htr, ← hstable]
      exact h.included.2
    · exact h.covered.length.trans (htr.discard i)
    · exact (h.covered.slot e he).symm
  · unfold Carries
    rw [hrpc]
    obtain ⟨hk, -⟩ := List.getElem?_eq_some_iff.1 he
    have hraft : (s.raft i).raftIndex k = (s.raft i).discardCount + k := Nat.add_comm _ _
    refine ⟨_, hlog, ?_, ?_, ?_, h.committed.1, hstable ▸ h.committed.2⟩
    · change (s.raft i).raftIndex k ≤ _
      omega
    · change lastTerm _ ((s.raft i).logical.take ((s.raft i).raftIndex k)) = e.term
      rw [hraft]
      exact Store.lastTerm_logical h.covered he
    · change (s.raft i).logs.drop (k + 1) = (s.raft i).logical.drop ((s.raft i).raftIndex k)
      have := Store.logical_drop h.covered (k := (s.raft i).raftIndex k)
        (by rw [hraft]; exact Nat.le_add_right _ _)
      rw [Raft.store_logical] at this
      rw [this]
      change _ = (s.raft i).logs.drop ((s.raft i).raftIndex k + 1 - (s.raft i).discardCount)
      congr 1
      omega

/-- **A candidate asks for votes with what it has.** -/
lemma Sound.candidate_request (h : Sound (s :: past) i (s.raft i))
    (hc : (s.raft i).identity = .candidate) {last : LogEntry C}
    (hlast : (s.raft i).logs[(s.raft i).logs.length - 1]? = some last) {p : Packet n C}
    (hp : p.caller = i) (hr : p.rpc = .requestVote ⟨(s.raft i).currentTerm, (s.raft i).me,
      (s.raft i).raftIndex ((s.raft i).logs.length - 1), last.term⟩) : Carries (s :: past) p := by
  unfold Carries
  rw [hr]
  refine ⟨(s.raft i).logical, ⟨s, List.mem_cons_self, by rw [hp]; exact ⟨hc, rfl, rfl⟩⟩, ?_, ?_⟩
  · rw [h.logical_length, Nat.add_comm]
    rfl
  · exact (h.lastTerm_eq hlast).symm

/-! ### Turns that leave the log alone -/

/-- **The log stays**, and the counters are where the log is held. -/
lemma Sound.sameStore (htr : Run H (s' :: s :: past)) (h : Sound (s :: past) i (s.raft i))
    (hstore : (s'.raft i).store = (s.raft i).store ∨ (s'.raft i).store = (s.raft i).store.save)
    (hcom : Held (s :: past) (s.raft i) (s'.raft i).committedIndex)
    (happ : Held (s :: past) (s.raft i) (s'.raft i).lastApplied)
    (hmatch : (s'.raft i).identity = .leader → ∀ j, Matches (s' :: s :: past) (s'.raft i) j) :
    Sound (s' :: s :: past) i (s'.raft i) := by
  have hfields : (s'.raft i).logical = (s.raft i).logical ∧ (s'.raft i).store.Covered ∧
      (s'.raft i).snapshot = (s.raft i).snapshot ∧
      (s'.raft i).lastIncludedIndex = (s.raft i).lastIncludedIndex := by
    rcases hstore with hs | hs
    · exact ⟨congrArg Store.logical hs, hs ▸ h.covered, congrArg Store.snapshot hs,
        congrArg Store.lastIncludedIndex hs⟩
    · exact ⟨congrArg Store.logical hs, hs ▸ ⟨h.covered.length, h.covered.slot⟩,
        congrArg Store.snapshot hs, congrArg Store.lastIncludedIndex hs⟩
  obtain ⟨hlog, hcov, hsnap, hincl⟩ := hfields
  have hnext : ∀ {k}, Held (s :: past) (s.raft i) k → Held (s' :: s :: past) (s'.raft i) k :=
    fun hk => hk.next (htr.stable_le i) (hlog ▸ List.take_prefix _ _)
  exact h.quiet htr hlog hcov (fun d hd => h.state d (hsnap ▸ hd)) (hincl ▸ hnext h.included)
    (hnext hcom) (hnext happ) hmatch

/-- Log and counters stay. -/
lemma Sound.same (htr : Run H (s' :: s :: past)) (h : Sound (s :: past) i (s.raft i))
    (hstore : (s'.raft i).store = (s.raft i).store ∨ (s'.raft i).store = (s.raft i).store.save)
    (hprog : (s'.raft i).progress = (s.raft i).progress)
    (hl : (s'.raft i).identity = .leader → (s.raft i).identity = .leader) :
    Sound (s' :: s :: past) i (s'.raft i) := by
  have hcom : (s'.raft i).committedIndex = (s.raft i).committedIndex :=
    congrArg Raft.Progress.committedIndex hprog
  have happ : (s'.raft i).lastApplied = (s.raft i).lastApplied :=
    congrArg Raft.Progress.lastApplied hprog
  have hmatch : (s'.raft i).matchIndex = (s.raft i).matchIndex :=
    congrArg Raft.Progress.matchIndex hprog
  have hlog : (s'.raft i).logical = (s.raft i).logical := by
    rcases hstore with hs | hs <;> exact congrArg Store.logical hs
  have hincl : (s'.raft i).lastIncludedIndex = (s.raft i).lastIncludedIndex := by
    rcases hstore with hs | hs <;> exact congrArg Store.lastIncludedIndex hs
  refine h.sameStore htr hstore (hcom ▸ h.committed) (happ ▸ h.applied) fun hid j => ?_
  obtain ⟨e, -, hstep⟩ := htr.last
  have hterm := ((step_ballot hstep i).leader_cases hid).2
  exact ((h.leader (hl hid)).2 j).next (congrFun hmatch j) hincl.ge hterm (hlog ▸ List.prefix_refl _)

/-- A server crashes and restarts. -/
lemma Sound.restart (htr : Run H (s' :: s :: past)) (h : Sound (s :: past) i (s.raft i))
    (heq : s'.raft i = (s.nodes i).restart.raft) : Sound (s' :: s :: past) i (s'.raft i) := by
  have hshape := (Run.shapely htr.tail).1 i
  have hstore : (s'.raft i).store = (s.raft i).store := by
    rw [heq]
    exact (Raft.store_make _).trans hshape.restart
  have hindex : (((s.raft i).persister.snapshot).map Snapshot.index).getD 0 =
      (s.raft i).lastIncludedIndex := by
    rw [show (s.raft i).persister.snapshot = (s.raft i).snapshot from hshape.stableSnapshot]
    exact hshape.index.symm
  have hprog : (s'.raft i).progress =
      ⟨(s.raft i).lastIncludedIndex, (s.raft i).lastIncludedIndex, fun _ => 0⟩ := by
    rw [heq, ← hindex]
    exact Raft.progress_make _ _
  refine h.sameStore htr (Or.inl hstore) ?_ ?_ fun hid => ?_
  · rw [show (s'.raft i).committedIndex = (s.raft i).lastIncludedIndex from
      congrArg Raft.Progress.committedIndex hprog]
    exact h.included
  · rw [show (s'.raft i).lastApplied = (s.raft i).lastIncludedIndex from
      congrArg Raft.Progress.lastApplied hprog]
    exact h.included
  · rw [heq, Node.restart_identity] at hid
    cases hid

/-- The service has taken a snapshot. -/
lemma Sound.compact (htr : Run H (s' :: s :: past)) (h : Sound (s :: past) i (s.raft i)) {index : ℕ}
    {data : Snapshot C (List C)} (hlt : (s.raft i).lastIncludedIndex < index)
    (hheld : Held (s :: past) (s.raft i) index)
    (hdata : data.state = ((s.raft i).logical.take index).map LogEntry.command)
    (heq : s'.raft i = (s.raft i).callSnapshot index data) :
    Sound (s' :: s :: past) i (s'.raft i) := by
  have hst := htr.stable_le i
  have hdisc : (s.raft i).store.discardCount ≤ index := (Run.discard htr.tail i).le.trans hlt.le
  have hstore : (s'.raft i).store = ((s.raft i).store.compact index data).save := by
    rw [heq]
    exact ((Raft.store_callSnapshot _ index data).resolve_left fun h => not_le.2 hlt h.1).2
  have hlog : (s'.raft i).logical = (s.raft i).logical :=
    (congrArg Store.logical hstore).trans (Store.logical_compact h.covered data hdisc hheld.1)
  have hprog : (s'.raft i).progress = ⟨max (s.raft i).committedIndex index,
      max (s.raft i).lastApplied index, (s.raft i).matchIndex⟩ := by
    rw [heq]
    exact Raft.progress_callSnapshot data hlt
  have hnext : ∀ {k}, Held (s :: past) (s.raft i) k → Held (s' :: s :: past) (s'.raft i) k :=
    fun hk => hk.next hst (hlog ▸ List.take_prefix _ _)
  have hmax : ∀ {k}, Held (s :: past) (s.raft i) k → Held (s' :: s :: past) (s'.raft i) (max k index) :=
    fun {k} hk => by rcases max_choice k index with h' | h' <;> rw [h'] <;> exact hnext (by assumption)
  have hincl : (s'.raft i).lastIncludedIndex = index := congrArg Store.lastIncludedIndex hstore
  refine h.quiet htr hlog ?_ (fun d hd => ?_) (hincl ▸ hnext hheld) ?_ ?_ fun hid j => ?_
  · have := Store.covered_compact h.covered data hdisc hheld.1
    exact hstore ▸ ⟨this.length, this.slot⟩
  · have hsnap : (s'.raft i).snapshot =
        some { data with covered := (s.raft i).logical.take index } := congrArg Store.snapshot hstore
    rw [hsnap] at hd
    cases hd
    exact hdata
  · rw [show (s'.raft i).committedIndex = _ from congrArg Raft.Progress.committedIndex hprog]
    exact hmax h.committed
  · rw [show (s'.raft i).lastApplied = _ from congrArg Raft.Progress.lastApplied hprog]
    exact hmax h.applied
  · obtain ⟨e, -, hstep⟩ := htr.last
    have hb : Ballot.Step True False True (s.raft i).ballot (s'.raft i).ballot := by
      rw [heq]
      rcases Raft.ballot_callSnapshot (s.raft i) index data with h | h
      · rw [h]
        exact .stay
      · rw [h]
        exact .save
    obtain ⟨hl, hterm⟩ := hb.leader hid
    exact ((h.leader hl).2 j).next (congrFun (congrArg Raft.Progress.matchIndex hprog) j)
      (hincl.symm ▸ hlt.le) hterm (hlog ▸ List.prefix_refl _)

/-- `applyLog` moves `lastApplied`. -/
lemma Sound.applyLog (htr : Run H (s' :: s :: past)) (h : Sound (s :: past) i (s.raft i))
    {msgs : List (ApplyMsg C (List C))} (heq : (s.raft i).applyLog = some (s'.raft i, msgs)) :
    Sound (s' :: s :: past) i (s'.raft i) := by
  have hstore := Raft.store_applyLog heq
  have hlog : (s'.raft i).logical = (s.raft i).logical := congrArg Store.logical hstore
  obtain ⟨snap, cmds, lastApplied, -, heq', -, hla⟩ := Raft.applyLog_cases heq
  have happ : Held (s :: past) (s.raft i) (s'.raft i).lastApplied := by
    rw [show (s'.raft i).lastApplied = lastApplied by rw [heq']]
    rcases hla with ⟨-, -, rfl⟩ | ⟨-, -, rfl⟩
    · exact h.applied
    · exact max_rec' (Held (s :: past) (s.raft i))
        (max_rec' (Held (s :: past) (s.raft i)) h.applied h.included) h.committed
  refine h.sameStore htr (Or.inl hstore) ?_ happ fun hid j => ?_
  · rw [heq']
    exact h.committed
  · have hid' : (s.raft i).identity = .leader := by rwa [heq'] at hid
    exact ((h.leader hid').2 j).next (by rw [heq'])
      (congrArg Store.lastIncludedIndex hstore).ge (by rw [heq']) (hlog ▸ List.prefix_refl _)

/-! ### Turns of a leader -/

/-- A candidate has won its election. -/
lemma Sound.elected (htr : Run H (s' :: s :: past)) (h : Sound (s :: past) i (s.raft i)) {t : ℕ}
    (heq : s'.raft i = ((s.raft i).countVote t).asLeader) :
    Sound (s' :: s :: past) i (s'.raft i) := by
  have hstore : (s'.raft i).store = (s.raft i).store := by
    rw [heq]
    rfl
  refine h.sameStore htr (Or.inl hstore) ?_ ?_ fun _ j => Or.inl ?_
  · rw [show (s'.raft i).committedIndex = (s.raft i).committedIndex by rw [heq]; rfl]
    exact h.committed
  · rw [show (s'.raft i).lastApplied = (s.raft i).lastApplied by rw [heq]; rfl]
    exact h.applied
  · rw [show (s'.raft i).matchIndex j = 0 by rw [heq]; rfl]
    exact Nat.zero_le _

/-- A leader starts a command. -/
lemma Sound.start (htr : Run H (s' :: s :: past)) (h : Sound (s :: past) i (s.raft i)) {command : C}
    (hl : (s.raft i).identity = .leader)
    (heq : s'.raft i = ({ s.raft i with
      logs := (s.raft i).logs ++ [⟨command, (s.raft i).currentTerm⟩] } :
        Raft n C (List C)).persist) : Sound (s' :: s :: past) i (s'.raft i) := by
  have hne := ((Run.shapely htr.tail).1 i).logs_ne
  have hstore : (s'.raft i).store =
      ((s.raft i).store.append ⟨command, (s.raft i).currentTerm⟩).save := by
    rw [heq]
    rfl
  have hcov := Store.covered_append h.covered hne ⟨command, (s.raft i).currentTerm⟩
  refine h.append htr (e := ⟨command, (s.raft i).currentTerm⟩)
    ((congrArg Store.logical hstore).trans (Store.logical_append hne _)) ?_ ?_ hl ?_
    (hstore ▸ ⟨hcov.length, hcov.slot⟩) ?_ ?_ ?_ ?_ ?_
  all_goals
    rw [heq]
    try rfl
  exact hl

/-- Between two entries of the same term all are of that term. -/
lemma Sound.term_between (hL : (ledger (s :: past)).Lawful LogEntry.term)
    (h : Sound (s :: past) i (s.raft i)) {low k high t : ℕ} {elow ehigh : LogEntry C}
    (hlow : low ≤ k) (hhigh : k ≤ high) (helow : (s.raft i).logs[low]? = some elow)
    (hehigh : (s.raft i).logs[high]? = some ehigh) (htlow : elow.term = t)
    (hthigh : ehigh.term = t) :
    lastTerm LogEntry.term ((s.raft i).logical.take ((s.raft i).raftIndex k)) = t := by
  have h₁ : lastTerm LogEntry.term ((s.raft i).logical.take ((s.raft i).discardCount + low)) = t :=
    (Store.lastTerm_logical h.covered helow).trans htlow
  have h₂ : lastTerm LogEntry.term ((s.raft i).logical.take ((s.raft i).discardCount + high)) = t :=
    (Store.lastTerm_logical h.covered hehigh).trans hthigh
  have hraft : (s.raft i).raftIndex k = (s.raft i).discardCount + k := Nat.add_comm _ _
  rw [hraft]
  exact le_antisymm (h₂ ▸ hL.lastTerm_mono h.genuine (by omega))
    (h₁ ▸ hL.lastTerm_mono h.genuine (by omega))

/-- **What a majority has of a leader's log up to an entry of its term is committed.** -/
lemma held_of_quorum (htr : Run H (s :: past)) (hL : (ledger (s :: past)).Lawful LogEntry.term)
    (h : Sound (s :: past) i (s.raft i)) (hl : (s.raft i).identity = .leader)
    {matchIndex : Fin n → ℕ} (hmatch : ∀ j, matchIndex j ≤ (s.raft i).lastIncludedIndex ∨
      (matchIndex j ≤ (s.raft i).logical.length ∧ (ledger (s :: past)).Acked j (s.raft i).currentTerm
        ((s.raft i).logical.take (matchIndex j))))
    {low k high : ℕ} {elow ehigh : LogEntry C} (hlow : low ≤ k) (hhigh : k ≤ high)
    (helow : (s.raft i).logs[low]? = some elow) (hehigh : (s.raft i).logs[high]? = some ehigh)
    (htlow : elow.term = (s.raft i).currentTerm) (hthigh : ehigh.term = (s.raft i).currentTerm)
    {Q : Finset (Fin n)} (hQ : ∀ j ∈ Q, j ≠ i ∧ (s.raft i).raftIndex k ≤ matchIndex j)
    (hcard : n < 2 * (1 + Q.card)) : Held (s :: past) (s.raft i) ((s.raft i).raftIndex k) := by
  by_cases hincl : ∃ j ∈ Q, matchIndex j ≤ (s.raft i).lastIncludedIndex
  · obtain ⟨j, hj, hle⟩ := hincl
    exact h.included.of_le ((hQ j hj).2.trans hle)
  · push Not at hincl
    set l := (s.raft i).logical with hldef
    set t := (s.raft i).currentTerm with htdef
    have hstable := htr.leader_stable hl
    have hlog : LeaderLog (s :: past) t l := ⟨s, List.mem_cons_self, i, hl, rfl, rfl⟩
    have hpos : 0 < t := by
      obtain ⟨e, -, -, hlt, -⟩ := hL.election hlog
      omega
    have hlen : (s.raft i).raftIndex k ≤ l.length := by
      obtain ⟨hk, -⟩ := List.getElem?_eq_some_iff.1 hehigh
      rw [hldef, h.logical_length]
      unfold Raft.raftIndex
      omega
    have hlast := h.term_between hL hlow hhigh helow hehigh htlow hthigh
    have hne : l.take ((s.raft i).raftIndex k) ≠ [] :=
      ne_nil_of_lastTerm_pos LogEntry.term (hlast ▸ hpos)
    have hack : ∀ v ∈ insert i Q,
        (ledger (s :: past)).Acked v t (l.take ((s.raft i).raftIndex k)) := by
      intro v hv
      rcases Finset.mem_insert.1 hv with rfl | hv
      · refine ⟨l, ?_, List.take_prefix _ _⟩
        rw [htdef, ← hstable] at hlog ⊢
        exact .now hlog (List.prefix_refl _) (List.prefix_refl _)
      · rcases hmatch v with hle | ⟨-, a, ha, hpre⟩
        · exact absurd hle (not_le.2 (hincl v hv))
        · exact ⟨a, ha, (List.take_prefix_take_left (hQ v hv).2).trans hpre⟩
    have hiQ : i ∉ Q := fun hi => (hQ i hi).1 rfl
    refine ⟨hlen, Or.inr ⟨t, _, hstable.ge, ⟨hne, hlast, ⟨l, hlog, List.take_prefix _ _⟩,
      insert i Q, ?_, hack⟩, List.prefix_refl _⟩⟩
    unfold Majority
    rw [Fintype.card_fin, Finset.card_insert_of_notMem hiQ]
    omega

/-- A leader learns what a follower has, and perhaps commits. -/
lemma Sound.commit (htr : Run H (s' :: s :: past)) (hL : (ledger (s :: past)).Lawful LogEntry.term)
    (h : Sound (s :: past) i (s.raft i)) (hl : (s.raft i).identity = .leader) {j : Fin n}
    {l : List (LogEntry C)} (hlog : LeaderLog (s :: past) (s.raft i).currentTerm l)
    (hack : (ledger (s :: past)).Acked j (s.raft i).currentTerm l) {next : Fin n → ℕ}
    (heq : ({ s.raft i with
      matchIndex := Function.update (s.raft i).matchIndex j l.length
      nextIndex := next } : Raft n C (List C)).updateCommittedIndex = some (s'.raft i)) :
    Sound (s' :: s :: past) i (s'.raft i) := by
  obtain ⟨hlogs, hmatches⟩ := h.leader hl
  have hpre := hlogs l hlog
  have hmatch : ∀ v, Function.update (s.raft i).matchIndex j l.length v ≤
      (s.raft i).lastIncludedIndex ∨
      (Function.update (s.raft i).matchIndex j l.length v ≤ (s.raft i).logical.length ∧
        (ledger (s :: past)).Acked v (s.raft i).currentTerm ((s.raft i).logical.take
          (Function.update (s.raft i).matchIndex j l.length v))) := by
    intro v
    by_cases hv : v = j
    · subst hv
      rw [Function.update_self, ← List.prefix_iff_eq_take.1 hpre]
      exact Or.inr ⟨hpre.length_le, hack⟩
    · rw [Function.update_of_ne hv]
      exact hmatches v
  obtain ⟨index, heq', hindex⟩ := Raft.updateCommittedIndex_cases heq
  have hstore : (s'.raft i).store = (s.raft i).store := by
    rw [heq']
    rfl
  have hlog' : (s'.raft i).logical = (s.raft i).logical := congrArg Store.logical hstore
  have hheld : Held (s :: past) (s.raft i) index := by
    rcases hindex with rfl | ⟨-, low, k, high, elow, ehigh, hlow, hhigh, helow, hehigh, htlow, hthigh,
      rfl, Q, hQ, hcard⟩
    · exact h.committed
    · have hme : (s.raft i).me = i := (Run.ballot_ok htr.tail i).1
      exact held_of_quorum htr.tail hL h hl hmatch hlow hhigh helow hehigh htlow hthigh
        (fun v hv => ⟨hme ▸ (hQ v hv).1, (hQ v hv).2⟩) hcard
  refine h.sameStore htr (Or.inl hstore) ?_ ?_ fun _ v => ?_
  · rw [show (s'.raft i).committedIndex = index by rw [heq']]
    exact hheld
  · rw [show (s'.raft i).lastApplied = (s.raft i).lastApplied by rw [heq']]
    exact h.applied
  · unfold Matches
    rw [hlog', heq']
    exact (hmatch v).imp id fun hv => ⟨hv.1, hv.2.le ledger_le⟩

/-- A leader learns that a follower has a snapshot that its own one reaches up to. -/
lemma Sound.snapshotReply (htr : Run H (s' :: s :: past)) (h : Sound (s :: past) i (s.raft i))
    {j : Fin n} {index : ℕ} (hle : index ≤ (s.raft i).lastIncludedIndex) {next : Fin n → ℕ}
    (heq : s'.raft i = { s.raft i with
      matchIndex := Function.update (s.raft i).matchIndex j index
      nextIndex := next }) : Sound (s' :: s :: past) i (s'.raft i) := by
  have hstore : (s'.raft i).store = (s.raft i).store := by
    rw [heq]
    rfl
  have hlog : (s'.raft i).logical = (s.raft i).logical := congrArg Store.logical hstore
  refine h.sameStore htr (Or.inl hstore) ?_ ?_ fun hid v => ?_
  · rw [show (s'.raft i).committedIndex = (s.raft i).committedIndex by rw [heq]]
    exact h.committed
  · rw [show (s'.raft i).lastApplied = (s.raft i).lastApplied by rw [heq]]
    exact h.applied
  · have hid' : (s.raft i).identity = .leader := by rwa [heq] at hid
    by_cases hv : v = j
    · left
      rw [heq]
      change Function.update (s.raft i).matchIndex j index v ≤ _
      rw [hv, Function.update_self]
      exact hle
    · refine ((h.leader hid').2 v).next ?_ ?_ ?_ (hlog ▸ List.prefix_refl _)
      · rw [heq]
        exact Function.update_of_ne hv _ _
      · rw [heq]
      · rw [heq]

/-! ### Turns of a follower -/

/-- **A follower that passes the check adopts the leader's log.** -/
lemma adopts_splice (hL : (ledger (s :: past)).Lawful LogEntry.term)
    (h : Sound (s :: past) i (s.raft i)) {args : ApplyEntriesArgs n C} {l : List (LogEntry C)}
    (hargs : Entries (s :: past) args l) (hle : (s.raft i).discardCount ≤ args.prevLogIndex)
    {e : LogEntry C} (he : (s.raft i).logs[args.prevLogIndex - (s.raft i).discardCount]? = some e)
    (hterm : e.term = args.prevLogTerm) :
    Ledger.Adopts (s.raft i).logical ((s.raft i).store.splice args).logical l := by
  have hlen := hargs.length
  have hprev : args.prevLogIndex ≤ (s.raft i).logical.length := by
    obtain ⟨hk, -⟩ := List.getElem?_eq_some_iff.1 he
    rw [h.logical_length]
    omega
  have hlast : lastTerm LogEntry.term ((s.raft i).logical.take args.prevLogIndex) =
      lastTerm LogEntry.term (l.take args.prevLogIndex) := by
    have := Store.lastTerm_logical h.covered he
    rw [show (s.raft i).store.discardCount + (args.prevLogIndex - (s.raft i).discardCount) =
      args.prevLogIndex from Nat.add_sub_cancel' hle] at this
    exact this.trans (hterm.trans hargs.prevTerm.symm)
  have hget : ∀ k, args.entries[k]? = l[args.prevLogIndex + k]? := by
    intro k
    rw [hargs.entries, List.getElem?_drop]
  refine hL.splice_adopts h.genuine (hL.genuine hargs.leader) hprev hargs.prev hlast ?_
  rw [← hargs.entries, ← hlen]
  obtain ⟨hagree, heq⟩ | ⟨⟨k, x, y, hx, hy, hne⟩, heq⟩ := Store.logical_splice h.covered hle he
  · refine Or.inl ⟨fun j x y hj hx hy => hagree (j - args.prevLogIndex) x y ?_ ?_, heq⟩
    · rwa [show args.prevLogIndex + (j - args.prevLogIndex) = j by omega]
    · rwa [hget, show args.prevLogIndex + (j - args.prevLogIndex) = j by omega]
  · exact Or.inr ⟨⟨args.prevLogIndex + k, x, y, hx, hget k ▸ hy, hne⟩, heq⟩

/-- **A follower that takes a snapshot adopts what it stands for.** -/
lemma adopts_install (hL : (ledger (s :: past)).Lawful LogEntry.term)
    (htr : Run H (s :: past)) (h : Sound (s :: past) i (s.raft i))
    {args : InstallSnapshotArgs n C (List C)} (hargs : Snap (s :: past) args)
    (hlt : (s.raft i).lastIncludedIndex < args.lastIncludedIndex) :
    Ledger.Adopts (s.raft i).logical ((s.raft i).store.install args).logical
      (coveredBy args.data) := by
  obtain ⟨m, hm, hpre⟩ := hargs.leader
  have hdisc : (s.raft i).store.discardCount = (s.raft i).lastIncludedIndex := htr.discard i
  have hlen := hargs.length
  obtain ⟨hcov, heq⟩ | ⟨hcov, heq⟩ := Store.logical_install h.covered args
  · -- the log has an entry of the right term there, so all of the snapshot
    obtain ⟨x, hx, hxt⟩ := Option.map_eq_some_iff.1 hcov.2
    have hlast := Store.lastTerm_logical h.covered hx
    obtain ⟨hk, -⟩ := List.getElem?_eq_some_iff.1 hx
    have hk' : args.lastIncludedIndex ≤ (s.raft i).logical.length := by
      rw [h.logical_length]
      change _ ≤ (s.raft i).store.discardCount + ((s.raft i).store.logs.length - 1)
      omega
    rw [show (s.raft i).store.discardCount + (args.lastIncludedIndex -
      (s.raft i).store.discardCount) = args.lastIncludedIndex by omega] at hlast
    have htake := hL.take_eq h.genuine ((hL.genuine hm).piece hpre) hk' hlen.ge (by
      rw [List.take_of_length_le hlen.le, hargs.last]
      exact hlast.trans hxt)
    rw [List.take_of_length_le hlen.le] at htake
    refine Or.inl ⟨htake ▸ List.take_prefix _ _, ?_⟩
    rw [heq, ← htake]
    exact List.take_append_drop _ _
  · refine Or.inr ⟨fun hpre' => hcov ⟨by omega, ?_⟩, heq⟩
    have hx : (s.raft i).store.logical[args.lastIncludedIndex - 1]? =
        (coveredBy args.data)[args.lastIncludedIndex - 1]? := by
      obtain ⟨rest, hrest⟩ := hpre'
      rw [Raft.store_logical, ← hrest, List.getElem?_append_left (by omega)]
    have hy : (coveredBy args.data)[args.lastIncludedIndex - 1]? =
        some (coveredBy args.data)[args.lastIncludedIndex - 1] := List.getElem?_eq_getElem (by omega)
    have hlast := lastTerm_take LogEntry.term (by omega) hy
    rw [List.take_of_length_le hlen.le, hargs.last] at hlast
    rw [Store.logical_getElem? h.covered (by omega), hy,
      show args.lastIncludedIndex - 1 + 1 - (s.raft i).store.discardCount =
        args.lastIncludedIndex - (s.raft i).store.discardCount by omega] at hx
    rw [hx, hlast]
    rfl

/-- A follower accepts entries. -/
lemma Sound.accept (htr : Run H (s' :: s :: past)) (hL : (ledger (s :: past)).Lawful LogEntry.term)
    (h : Sound (s :: past) i (s.raft i)) {args : ApplyEntriesArgs n C} {l : List (LogEntry C)}
    (hargs : Entries (s :: past) args l) (hterm : (s.raft i).currentTerm ≤ args.term)
    (hle : (s.raft i).discardCount ≤ args.prevLogIndex) {e : LogEntry C}
    (he : (s.raft i).logs[args.prevLogIndex - (s.raft i).discardCount]? = some e)
    (het : e.term = args.prevLogTerm)
    (heq : s'.raft i = (((s.raft i).followLeader args.term).acceptEntries args).persist) :
    Sound (s' :: s :: past) i (s'.raft i) ∧ l <+: (s'.raft i).logical := by
  have hfollow : ((s.raft i).followLeader args.term).store = (s.raft i).store :=
    Raft.store_followLeader hterm
  have hstore : (s'.raft i).store = ((s.raft i).store.splice args).save := by
    rw [heq, Raft.store_persist, Raft.store_acceptEntries args (by
      rw [show ((s.raft i).followLeader args.term).discardCount = (s.raft i).discardCount from
        congrArg Store.discardCount hfollow]
      exact hle), hfollow]
  have hballot : (s'.raft i).ballot = ((s.raft i).ballot.follow args.term).save := by
    rw [heq, Raft.ballot_persist, Raft.ballot_acceptEntries, Raft.ballot_followLeader hterm]
  have hstable : (s'.raft i).stableTerm = args.term := congrArg Ballot.stableTerm hballot
  have hadopt : Ledger.Adopts (s.raft i).logical (s'.raft i).logical l := by
    rw [show (s'.raft i).logical = ((s.raft i).store.splice args).logical from
      congrArg Store.logical hstore]
    exact adopts_splice hL h hargs hle he het
  have hm : LeaderLog (s :: past) (s'.raft i).stableTerm l := hstable ▸ hargs.leader
  have hnext : ∀ {k}, Held (s :: past) (s.raft i) k → Held (s' :: s :: past) (s'.raft i) k :=
    fun hk => hk.adopt htr hL hadopt (List.prefix_refl _) hm
  have hcov := Store.covered_splice h.covered hle he
  have hpre := hadopt.contains
  obtain ⟨index, hindex⟩ : ∃ index, index = ((s.raft i).followLeader args.term).acceptedIndex args :=
    ⟨_, rfl⟩
  have hprog : (s'.raft i).progress = { (s.raft i).progress with committedIndex := index } := by
    rw [heq, Raft.progress_persist, Raft.progress_acceptEntries, Raft.progress_followLeader, hindex]
  replace hindex := hindex ▸ Raft.acceptedIndex_cases ((s.raft i).followLeader args.term) args
  refine ⟨h.adopt htr hL hadopt (List.prefix_refl _) hm (congrArg Ballot.identity hballot)
    (hstore ▸ ⟨hcov.length, hcov.slot⟩) ?_ ?_ ?_ ?_, hpre⟩
  · exact fun d hd => h.state d ((congrArg Store.snapshot hstore).symm.trans hd)
  · rw [show (s'.raft i).lastIncludedIndex = (s.raft i).lastIncludedIndex from
      congrArg Store.lastIncludedIndex hstore]
    exact hnext h.included
  · rw [show (s'.raft i).committedIndex = index from congrArg Raft.Progress.committedIndex hprog]
    rcases hindex with hindex | hindex
    · rw [hindex, show ((s.raft i).followLeader args.term).committedIndex =
        (s.raft i).committedIndex from congrArg Raft.Progress.committedIndex
          (Raft.progress_followLeader args.term)]
      exact hnext h.committed
    · -- the leader's commit index, as far as its log is here
      have hlen := hindex.trans hargs.commit
      have htake : (s'.raft i).logical.take index = l.take index := by
        obtain ⟨rest, hrest⟩ := hpre
        rw [← hrest, List.take_append_of_le_length hlen]
      refine ⟨hlen.trans hpre.length_le, ?_⟩
      rw [htake, hstable]
      exact (hargs.safe.piece (List.take_prefix_take_left hindex)).le ledger_le
  · rw [show (s'.raft i).lastApplied = (s.raft i).lastApplied from
      congrArg Raft.Progress.lastApplied hprog]
    exact hnext h.applied

/-- A follower takes a snapshot. -/
lemma Sound.install (htr : Run H (s' :: s :: past)) (hL : (ledger (s :: past)).Lawful LogEntry.term)
    (h : Sound (s :: past) i (s.raft i)) {args : InstallSnapshotArgs n C (List C)}
    (hargs : Snap (s :: past) args) (hterm : (s.raft i).currentTerm ≤ args.term)
    (hlt : (s.raft i).lastIncludedIndex < args.lastIncludedIndex)
    (heq : s'.raft i = ((s.raft i).followLeader args.term).takeSnapshot args) :
    Sound (s' :: s :: past) i (s'.raft i) ∧ coveredBy args.data <+: (s'.raft i).logical := by
  have hstore : (s'.raft i).store = ((s.raft i).store.install args).save := by
    rw [heq, Raft.store_takeSnapshot, Raft.store_followLeader hterm]
  have hballot : (s'.raft i).ballot = ((s.raft i).ballot.follow args.term).save := by
    rw [heq, Raft.ballot_takeSnapshot, Raft.ballot_followLeader hterm]
  have hstable : (s'.raft i).stableTerm = args.term := congrArg Ballot.stableTerm hballot
  have hadopt : Ledger.Adopts (s.raft i).logical (s'.raft i).logical (coveredBy args.data) := by
    rw [show (s'.raft i).logical = ((s.raft i).store.install args).logical from
      congrArg Store.logical hstore]
    exact adopts_install hL htr.tail h hargs hlt
  obtain ⟨m, hm, hpre⟩ := hargs.leader
  rw [← hstable] at hm
  have hnext : ∀ {k}, Held (s :: past) (s.raft i) k → Held (s' :: s :: past) (s'.raft i) k :=
    fun hk => hk.adopt htr hL hadopt hpre hm
  have hcov : ((s.raft i).store.install args).Covered :=
    Store.covered_install hargs.length hargs.last
  have hprog : (s'.raft i).progress = (s.raft i).progress := by
    rw [heq, Raft.progress_takeSnapshot, Raft.progress_followLeader]
  have hcontains := hadopt.contains
  have hshape : ((s.raft i).store.install args).snapshot = args.data ∧
      ((s.raft i).store.install args).lastIncludedIndex = args.lastIncludedIndex := by
    unfold Store.install
    split <;> exact ⟨rfl, rfl⟩
  refine ⟨h.adopt htr hL hadopt hpre hm (congrArg Ballot.identity hballot)
    (hstore ▸ ⟨hcov.length, hcov.slot⟩) ?_ ?_ ?_ ?_, hcontains⟩
  · intro d hd
    exact hargs.state d (hshape.1.symm.trans ((congrArg Store.snapshot hstore).symm.trans hd))
  · rw [show (s'.raft i).lastIncludedIndex = args.lastIncludedIndex from
      (congrArg Store.lastIncludedIndex hstore).trans hshape.2, ← hargs.length]
    refine ⟨hcontains.length_le, ?_⟩
    rw [← List.prefix_iff_eq_take.1 hcontains, hstable]
    exact hargs.safe.le ledger_le
  · rw [show (s'.raft i).committedIndex = (s.raft i).committedIndex from
      congrArg Raft.Progress.committedIndex hprog]
    exact hnext h.committed
  · rw [show (s'.raft i).lastApplied = (s.raft i).lastApplied from
      congrArg Raft.Progress.lastApplied hprog]
    exact hnext h.applied

/-! ### What a follower answers -/

/-- **A follower whose snapshot hides the entries has them**, provided `HoldsHidden`. -/
lemma Sound.hidden (htr : Run H (s :: past)) (hL : (ledger (s :: past)).Lawful LogEntry.term)
    (h : Sound (s :: past) i (s.raft i)) {args : ApplyEntriesArgs n C} {l : List (LogEntry C)}
    (hargs : Entries (s :: past) args l) (hterm : (s.raft i).currentTerm ≤ args.term)
    (hprev : args.prevLogIndex < (s.raft i).discardCount)
    (hH : (s.raft i).HoldsHidden args) : l <+: (s.raft i).logical := by
  have hdisc := htr.discard i
  have hlen := hargs.length
  have hstable : (s.raft i).stableTerm ≤ args.term := (htr.ballot_ok i).2.le.trans hterm
  rcases Nat.lt_or_ge (s.raft i).lastIncludedIndex l.length with hlt | hge
  · have hlast := hH hterm (by omega) (by omega)
    obtain ⟨y, hy⟩ : ∃ y, l[l.length - 1]? = some y := ⟨_, List.getElem?_eq_getElem (by omega)⟩
    have hend : args.entries.getLast? = some y := by
      rw [hargs.entries, List.getLast?_drop, if_neg (by omega), List.getLast?_eq_getElem?, hy]
    rw [hend, hlen] at hlast
    obtain ⟨x, hx, hxy⟩ := Option.map_eq_some_iff.1 hlast
    obtain ⟨hle, hx⟩ := Raft.entry_realIndex hx
    obtain ⟨hk, -⟩ := List.getElem?_eq_some_iff.1 hx
    have hlogical : lastTerm LogEntry.term ((s.raft i).logical.take l.length) = x.term := by
      have := Store.lastTerm_logical h.covered hx
      rwa [show (s.raft i).store.discardCount + (l.length - (s.raft i).discardCount) = l.length from
        Nat.add_sub_cancel' hle] at this
    have hl : lastTerm LogEntry.term (l.take l.length) = y.term :=
      lastTerm_take LogEntry.term (by omega) hy
    have htake := hL.take_eq h.genuine (hL.genuine hargs.leader) (k := l.length) (by
      rw [h.logical_length]
      omega) le_rfl (hlogical.trans (hxy.trans hl.symm))
    rw [List.take_length] at htake
    exact htake ▸ List.take_prefix _ _
  · -- all of the leader's log is in the snapshot, which is known to be committed
    have hlen' : ((s.raft i).logical.take (s.raft i).lastIncludedIndex).length =
        (s.raft i).lastIncludedIndex := by simpa using h.included.1
    rcases hL.safe_leaderLog (h.included.2.mono hstable) hargs.leader with hpre | hpre
    · rw [← hpre.eq_of_length (le_antisymm hpre.length_le (by omega))]
      exact List.take_prefix _ _
    · exact hpre.trans (List.take_prefix _ _)

/-- A follower whose own snapshot is ahead has what the leader's stands for. -/
lemma Sound.unneeded (hL : (ledger (s :: past)).Lawful LogEntry.term)
    (h : Sound (s :: past) i (s.raft i)) {args : InstallSnapshotArgs n C (List C)}
    (hargs : Snap (s :: past) args)
    (hle : args.lastIncludedIndex ≤ (s.raft i).lastIncludedIndex) :
    coveredBy args.data <+: (s.raft i).logical := by
  have hlen : ((s.raft i).logical.take (s.raft i).lastIncludedIndex).length =
      (s.raft i).lastIncludedIndex := by simpa using h.included.1
  have hlen' := hargs.length
  rcases hL.safe_comparable hargs.safe h.included.2 with hpre | hpre
  · exact hpre.trans (List.take_prefix _ _)
  · rw [← hpre.eq_of_length (le_antisymm hpre.length_le (by omega))]
    exact List.take_prefix _ _

/-- A positive answer acknowledges the whole log that the leader had. -/
lemma carries_success {p : Packet n C} {args : ApplyEntriesArgs n C} {reply : ApplyEntriesReply}
    {l : List (LogEntry C)} (hp : p.callee = i) (hargs : Entries (s :: past) args l)
    (hterm : reply.term = args.term) (hstable : (s'.raft i).stableTerm = args.term)
    (hpre : l <+: (s'.raft i).logical)
    (hrpc : p.rpc = .applyEntriesReply args reply (s'.raft i).logical) :
    Carries (s' :: s :: past) p := by
  unfold Carries
  rw [hrpc]
  refine fun _ => ⟨hterm, l, hargs.mono, ⟨l, ?_, List.prefix_refl _⟩, hpre⟩
  rw [hp, ← hstable]
  exact .now (hstable ▸ hargs.leader.mono) (List.prefix_refl _) hpre

/-- **The answer to an `ApplyEntries`.** -/
lemma Sound.answer (htr : Run H (s' :: s :: past)) (hL : (ledger (s :: past)).Lawful LogEntry.term)
    (h : Sound (s :: past) i (s.raft i)) {p : Packet n C} {args : ApplyEntriesArgs n C}
    {reply : ApplyEntriesReply} {l : List (LogEntry C)} (hp : p.callee = i)
    (hargs : Entries (s :: past) args l) (hH : (s.raft i).HoldsHidden args)
    (heq : (s.raft i).applyEntries args = some (s'.raft i, reply))
    (hrpc : p.rpc = .applyEntriesReply args reply (s'.raft i).logical) :
    Sound (s' :: s :: past) i (s'.raft i) ∧ Carries (s' :: s :: past) p := by
  have hfail : reply.success = false → Carries (s' :: s :: past) p := by
    intro hs
    unfold Carries
    rw [hrpc]
    intro hs'
    rw [hs] at hs'
    cases hs'
  have hstep : Ballot.Step True False True _ _ := Raft.ballot_applyEntries heq
  obtain ⟨-, h', -, hs⟩ | ⟨hterm, hrt, ⟨h', hs⟩ | ⟨h', -, hprev⟩ | ⟨h', -, hprev, e, he, het⟩⟩ :=
    Raft.applyEntries_cases heq
  · exact ⟨h.same htr (Or.inr (by rw [h']; rfl)) (by rw [h']; rfl) fun hl => (hstep.leader hl).1,
      hfail hs⟩
  · refine ⟨h.same htr (Or.inr ?_) ?_ fun hl => (hstep.leader hl).1, hfail hs⟩
    · rw [h', Raft.store_persist, Raft.store_followLeader hterm]
    · rw [h', Raft.progress_persist, Raft.progress_followLeader]
  · have hstore : (s'.raft i).store = (s.raft i).store.save := by
      rw [h', Raft.store_persist, Raft.store_followLeader hterm]
    refine ⟨h.same htr (Or.inr hstore) ?_ fun hl => (hstep.leader hl).1, ?_⟩
    · rw [h', Raft.progress_persist, Raft.progress_followLeader]
    · refine carries_success hp hargs hrt ?_ ?_ hrpc
      · rw [h']
        have hb : ((s.raft i).followLeader args.term).ballot = (s.raft i).ballot.follow args.term :=
          Raft.ballot_followLeader hterm
        exact congrArg Ballot.term hb
      · rw [show (s'.raft i).logical = (s.raft i).logical from congrArg Store.logical hstore]
        exact h.hidden htr.tail hL hargs hterm hprev hH
  · obtain ⟨hsound, hpre⟩ := h.accept htr hL hargs hterm hprev he het h'
    refine ⟨hsound, carries_success hp hargs hrt ?_ hpre hrpc⟩
    have hb : (s'.raft i).ballot = ((s.raft i).ballot.follow args.term).save := by
      rw [h', Raft.ballot_persist, Raft.ballot_acceptEntries, Raft.ballot_followLeader hterm]
    exact congrArg Ballot.stableTerm hb

/-- **The answer to an `InstallSnapshot`.** -/
lemma Sound.answerSnapshot (htr : Run H (s' :: s :: past))
    (hL : (ledger (s :: past)).Lawful LogEntry.term) (h : Sound (s :: past) i (s.raft i))
    {p : Packet n C} {args : InstallSnapshotArgs n C (List C)} {reply : InstallSnapshotReply}
    (hargs : Snap (s :: past) args) (hincl : Included (s :: past) p.caller args.lastIncludedIndex)
    (heq : (s.raft i).installSnapshot args = (s'.raft i, reply))
    (hrpc : p.rpc = .installSnapshotReply args reply (s'.raft i).logical) :
    Sound (s' :: s :: past) i (s'.raft i) ∧ Carries (s' :: s :: past) p := by
  have hcarries : (reply.term = args.term → coveredBy args.data <+: (s'.raft i).logical) →
      Carries (s' :: s :: past) p := by
    intro hpre
    unfold Carries
    rw [hrpc]
    exact ⟨hargs.mono, hincl.mono, hpre⟩
  obtain ⟨hlt, h'⟩ | ⟨hterm, hle, h'⟩ | ⟨hterm, hlt, h'⟩ := Raft.installSnapshot_cases (s.raft i) args
  · obtain ⟨heq', rfl⟩ := Prod.mk.inj (heq.symm.trans h')
    refine ⟨?_, hcarries fun ht => absurd ht (ne_of_gt hlt)⟩
    exact h.same htr (Or.inl (by rw [heq'])) (by rw [heq']) fun hl => heq' ▸ hl
  · obtain ⟨heq', rfl⟩ := Prod.mk.inj (heq.symm.trans h')
    have hstore : (s'.raft i).store = (s.raft i).store := by
      rw [heq', Raft.store_followLeader hterm]
    have hf : (s'.raft i).identity = .follower := by
      rw [heq', Raft.followLeader_eq _ hterm]
    refine ⟨h.same htr (Or.inl hstore) ?_ fun hl => ?_, hcarries fun _ => ?_⟩
    · rw [heq', Raft.progress_followLeader]
    · rw [hf] at hl
      cases hl
    · rw [show (s'.raft i).logical = (s.raft i).logical from congrArg Store.logical hstore]
      exact h.unneeded hL hargs hle
  · obtain ⟨heq', rfl⟩ := Prod.mk.inj (heq.symm.trans h')
    obtain ⟨hsound, hpre⟩ := h.install htr hL hargs hterm hlt heq'
    exact ⟨hsound, hcarries fun _ => hpre⟩

end Cluster

end RaftLabs
