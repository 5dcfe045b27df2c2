import RaftLabs.Raft.Cluster
import RaftLabs.Raft.Commit

/-!
# The messages on `applyCh`

What `applyLog` sends from `Make` on.  Which messages it collects depends on four fields of the
server, `Mark`, and most critical sections leave these alone.  A `Stream` is a server with the
messages it has sent; the service calls `Snapshot` for indices it has been delivered, and the other
critical sections run with any arguments.

`InstallSnapshot` compares the index of the snapshot with `lastIncludedIndex` only.  The stream moves
forward as long as every snapshot that is installed is ahead of `lastApplied` as well; a server that
has applied entries beyond the snapshot is sent back.
-/

set_option linter.unusedSectionVars false

namespace RaftLabs

open Lib

variable {n : ℕ} {C σ : Type} [Inhabited C]

/-! ### What the critical sections leave alone -/

namespace Raft

variable {rf rf' : Raft n C σ}

/-- What decides which messages `applyLog` sends, apart from the log. -/
structure Mark (C σ : Type) where
  lastApplied : ℕ
  lastIncludedIndex : ℕ
  applySnappending : Bool
  snapshot : Option (Snapshot C σ)

def mark (rf : Raft n C σ) : Mark C σ :=
  ⟨rf.lastApplied, rf.lastIncludedIndex, rf.applySnappending, rf.snapshot⟩

lemma mark_eq_iff {lastApplied lastIncludedIndex : ℕ} {applySnappending : Bool}
    {snapshot : Option (Snapshot C σ)} :
    rf.mark = ⟨lastApplied, lastIncludedIndex, applySnappending, snapshot⟩ ↔
      rf.lastApplied = lastApplied ∧ rf.lastIncludedIndex = lastIncludedIndex ∧
        rf.applySnappending = applySnappending ∧ rf.snapshot = snapshot := by
  rw [mark, Mark.mk.injEq]

/-- The snapshot in stable storage is the one in memory. -/
def Saved (rf : Raft n C σ) : Prop := rf.persister.snapshot = rf.snapshot

/-- The critical section has nothing to do with delivering or with snapshots. -/
def Quiet (rf rf' : Raft n C σ) : Prop := rf'.mark = rf.mark ∧ (rf.Saved → rf'.Saved)

lemma Quiet.refl : Quiet rf rf := ⟨rfl, id⟩

lemma quiet_persist : Quiet rf rf.persist := ⟨rfl, fun _ => rfl⟩

lemma Quiet.trans {rf'' : Raft n C σ} (h : Quiet rf rf') (h' : Quiet rf' rf'') : Quiet rf rf'' :=
  ⟨h'.1.trans h.1, fun hs => h'.2 (h.2 hs)⟩

lemma quiet_followLeader (t : ℕ) : Quiet rf (rf.followLeader t) := by
  dsimp only [followLeader]
  split <;> exact ⟨rfl, id⟩

lemma quiet_acceptEntries (args : ApplyEntriesArgs n C) : Quiet rf (rf.acceptEntries args) := by
  dsimp only [acceptEntries]
  split_ifs <;> exact ⟨rfl, id⟩

lemma quiet_requestVote {args : RequestVoteArgs n} {reply : RequestVoteReply}
    (h : rf.requestVote args = some (rf', reply)) : Quiet rf rf' := by
  obtain ⟨rfl, -⟩ | ⟨-, -, last, -, ⟨rfl, -⟩ | ⟨rfl, -, -⟩⟩ := requestVote_cases h
  · exact quiet_persist
  · refine Quiet.trans ?_ quiet_persist
    unfold observe
    split <;> exact ⟨rfl, id⟩
  · exact ⟨rfl, fun _ => rfl⟩

lemma quiet_applyEntries {args : ApplyEntriesArgs n C} {reply : ApplyEntriesReply}
    (h : rf.applyEntries args = some (rf', reply)) : Quiet rf rf' := by
  obtain ⟨-, rfl, -⟩ | ⟨-, -, ⟨rfl, -⟩ | ⟨rfl, -⟩ | ⟨rfl, -⟩⟩ := applyEntries_cases h
  · exact quiet_persist
  · exact (quiet_followLeader args.term).trans quiet_persist
  · exact (quiet_followLeader args.term).trans quiet_persist
  · exact ((quiet_followLeader args.term).trans (quiet_acceptEntries args)).trans quiet_persist

lemma quiet_sendApplyEntriesTo {server : Fin n} {args : ApplyEntriesArgs n C}
    {reply : ApplyEntriesReply} (h : rf.sendApplyEntriesTo server args reply = some rf') :
    Quiet rf rf' := by
  obtain rfl | ⟨-, rfl⟩ | ⟨index, rfl⟩ | ⟨-, -, -, -, h⟩ := sendApplyEntriesTo_cases h
  · exact .refl
  · exact ⟨rfl, fun _ => rfl⟩
  · exact ⟨rfl, id⟩
  · obtain ⟨index, rfl, -⟩ := updateCommittedIndex_cases h
    exact ⟨rfl, id⟩

/-- A section that does not bring a snapshot is quiet. -/
lemma handle_quiet {x : Input n C σ} {terms : List ℕ} (h : rf.handle x = some (rf', terms))
    (hinst : ∀ args, x ≠ .installSnapshot args) (hsnap : ∀ index data, x ≠ .callSnapshot index data)
    (happly : x ≠ .applyLog) : Quiet rf rf' := by
  cases x with
  | requestVote args =>
    obtain ⟨r, hr, h⟩ := Option.map_eq_some_iff.1 h
    cases h
    exact quiet_requestVote hr
  | requestVoteReply args reply =>
    cases h
    obtain h | ⟨-, h⟩ | ⟨-, -, h | ⟨-, -, h⟩⟩ := requestVoteReply_cases rf args reply
    · rw [h]
      exact .refl
    · rw [h]
      exact ⟨rfl, fun _ => rfl⟩
    · rw [h]
      exact ⟨rfl, id⟩
    · rw [h]
      exact ⟨rfl, id⟩
  | applyEntries args =>
    obtain ⟨r, hr, h⟩ := Option.map_eq_some_iff.1 h
    cases h
    exact quiet_applyEntries hr
  | applyEntriesReply server args reply =>
    obtain ⟨r, hr, h⟩ := Option.map_eq_some_iff.1 h
    cases h
    exact quiet_sendApplyEntriesTo hr
  | installSnapshot args => exact absurd rfl (hinst args)
  | installSnapshotReply server args reply =>
    cases h
    obtain h | ⟨-, h⟩ | ⟨-, -, h⟩ := sendInstallSnapshotTo_cases rf server args reply
    · rw [h]
      exact .refl
    · rw [h]
      exact ⟨rfl, fun _ => rfl⟩
    · rw [h]
      exact ⟨rfl, id⟩
  | electionTimeout =>
    obtain ⟨r, hr, h⟩ := Option.map_eq_some_iff.1 h
    cases h
    obtain ⟨-, h, -⟩ | ⟨-, last, -, h, -⟩ := electionTimeout_cases hr
    · rw [h]
      exact .refl
    · rw [h]
      exact ⟨rfl, fun _ => rfl⟩
  | heartbeatTimeout =>
    obtain ⟨r, -, h⟩ := Option.map_eq_some_iff.1 h
    cases h
    exact .refl
  | start command =>
    obtain ⟨⟨r, res, calls⟩, hr, h⟩ := Option.map_eq_some_iff.1 h
    cases h
    obtain ⟨-, rfl, -⟩ | ⟨-, rfl, -⟩ := start_cases hr
    · exact .refl
    · exact ⟨rfl, fun _ => rfl⟩
  | callSnapshot index data => exact absurd rfl (hsnap index data)
  | applyLog => exact absurd rfl happly

lemma mark_takeSnapshot (rf : Raft n C σ) (args : InstallSnapshotArgs n C σ) :
    (rf.takeSnapshot args).mark = ⟨rf.lastApplied, args.lastIncludedIndex, true, args.data⟩ ∧
      (rf.takeSnapshot args).Saved := by
  rw [takeSnapshot_eq]
  exact ⟨rfl, rfl⟩

lemma mark_callSnapshot {index : ℕ} (data : Snapshot C σ) (h : rf.lastIncludedIndex < index) :
    (∃ covered, (rf.callSnapshot index data).mark =
      ⟨max rf.lastApplied index, index, rf.applySnappending, some { data with covered := covered }⟩) ∧
      (rf.callSnapshot index data).Saved := by
  have hprog := congrArg Progress.lastApplied (progress_callSnapshot data h)
  have hmark : ∃ covered, (rf.callSnapshot index data).mark =
      ⟨(rf.callSnapshot index data).lastApplied, index, rf.applySnappending,
        some { data with covered := covered }⟩ ∧ (rf.callSnapshot index data).Saved := by
    dsimp only [callSnapshot]
    rw [if_neg (not_le.2 h)]
    refine ⟨rf.logical.take index, ?_⟩
    split_ifs <;> exact ⟨rfl, rfl⟩
  obtain ⟨covered, hmark, hsaved⟩ := hmark
  refine ⟨⟨covered, ?_⟩, hsaved⟩
  rw [hmark, show (rf.callSnapshot index data).lastApplied = max rf.lastApplied index from hprog]

lemma mark_make (me : Fin n) (persister : Persister n C σ) :
    (make me persister : Raft n C σ).mark =
      ⟨(persister.snapshot.map Snapshot.index).getD 0,
        (persister.snapshot.map Snapshot.index).getD 0, false, persister.snapshot⟩ := by
  rcases persister with ⟨_ | _, _ | _⟩ <;> rfl

end Raft

/-! ### Messages in order -/

/-- The index a message is about. -/
def ApplyMsg.index : ApplyMsg C σ → ℕ
  | .command _ index => index
  | .snapshot _ _ index => index

/-- Where the messages lead from `base`: the index of the last one. -/
def reached (base : ℕ) (msgs : List (ApplyMsg C σ)) : ℕ :=
  (msgs.getLast?.map ApplyMsg.index).getD base

/-- The message may come next: a command is the one after the last message, a snapshot is ahead of
everything before it. -/
def ApplyMsg.Continues (base : ℕ) (before : List (ApplyMsg C σ)) : ApplyMsg C σ → Prop
  | .command _ index => index = reached base before + 1
  | .snapshot _ _ index => base < index ∧ ∀ msg ∈ before, msg.index < index

/-- **The messages only move forward**, from `base` on. -/
def Forward (base : ℕ) (msgs : List (ApplyMsg C σ)) : Prop :=
  ∀ before msg, before ++ [msg] <+: msgs → ApplyMsg.Continues base before msg

section Forward

variable {base : ℕ} {msgs more : List (ApplyMsg C σ)} {msg : ApplyMsg C σ}

@[simp] lemma reached_nil : reached base ([] : List (ApplyMsg C σ)) = base := rfl

@[simp] lemma reached_concat : reached base (msgs ++ [msg]) = msg.index := by
  simp [reached]

lemma forward_nil : Forward base ([] : List (ApplyMsg C σ)) := by
  intro before msg h
  exact absurd (List.prefix_nil.1 h) (by simp)

lemma Forward.concat (h : Forward base msgs) (hmsg : ApplyMsg.Continues base msgs msg) :
    Forward base (msgs ++ [msg]) := by
  intro before m hm
  rcases List.prefix_concat_iff.1 hm with he | hm
  · obtain ⟨rfl, hlast⟩ := List.append_inj' he rfl
    rw [List.singleton_inj.1 hlast]
    exact hmsg
  · exact h before m hm

lemma Forward.mono (h : Forward base (msgs ++ more)) : Forward base msgs :=
  fun before m hm => h before m (hm.trans (List.prefix_append _ _))

/-- The last message is the farthest. -/
lemma Forward.le_reached (h : Forward base msgs) :
    base ≤ reached base msgs ∧ ∀ m ∈ msgs, m.index ≤ reached base msgs := by
  induction msgs using List.reverseRecOn with
  | nil => exact ⟨le_rfl, fun m hm => absurd hm (by simp)⟩
  | append_singleton msgs msg ih =>
    obtain ⟨hbase, hall⟩ := ih h.mono
    have hlt : reached base msgs < msg.index ∨ base < msg.index ∧ ∀ m ∈ msgs, m.index < msg.index := by
      have hnext := h msgs msg (List.prefix_refl _)
      cases msg with
      | command c index =>
        have : index = reached base msgs + 1 := hnext
        exact Or.inl (by rw [this]; exact Nat.lt_succ_self _)
      | snapshot data term index => exact Or.inr hnext
    rw [reached_concat]
    refine ⟨by rcases hlt with h | h <;> omega, fun m hm => ?_⟩
    rcases List.mem_append.1 hm with hm | hm
    · rcases hlt with hlt | ⟨-, hlt⟩
      · exact (hall m hm).trans hlt.le
      · exact (hlt m hm).le
    · rw [List.mem_singleton.1 hm]

/-- A snapshot ahead of the last message. -/
lemma Forward.snapshot (h : Forward base msgs) {index : ℕ} (hlt : reached base msgs < index)
    (data : Option (Snapshot C σ)) (term : ℕ) :
    Forward base (msgs ++ [.snapshot data term index]) := by
  obtain ⟨hbase, hall⟩ := h.le_reached
  exact h.concat ⟨by omega, fun m hm => (hall m hm).trans_lt hlt⟩

/-- The commands that `applyLog` collects. -/
lemma Forward.commandMsgs (h : Forward base msgs) {rf : Raft n C σ} {count : ℕ}
    (hc : rf.commandMsgs (reached base msgs + 1) count = some more) :
    Forward base (msgs ++ more) ∧ reached base (msgs ++ more) = reached base msgs + count := by
  induction count generalizing msgs more with
  | zero =>
    cases hc
    rw [List.append_nil]
    exact ⟨h, rfl⟩
  | succ count ih =>
    obtain ⟨e, -, hc⟩ := Option.bind_eq_some_iff.1 hc
    obtain ⟨rest, hrest, rfl⟩ := Option.map_eq_some_iff.1 hc
    have hnext : Forward base (msgs ++ [.command e.command (reached base msgs + 1)]) :=
      h.concat rfl
    have hr : reached base (msgs ++ [ApplyMsg.command e.command (reached base msgs + 1)]) =
        reached base msgs + 1 := reached_concat
    obtain ⟨hf, hq⟩ := ih hnext (by rw [hr]; exact hrest)
    rw [List.append_assoc, List.singleton_append] at hf hq
    exact ⟨hf, by omega⟩

end Forward

/-! ### A server and what it has sent -/

/-- A server, the `lastIncludedIndex` it was restored with, the messages `applyLog` has still to
send, and those it has sent since `Make`. -/
structure Stream (n : ℕ) (C σ : Type) where
  raft : Raft n C σ
  base : ℕ
  batch : List (ApplyMsg C σ)
  sent : List (ApplyMsg C σ)

inductive StreamEvent (n : ℕ) (C σ : Type)
  | raft (x : Input n C σ)
  | applyLog
  | send
  | snapshot (index : ℕ) (data : Snapshot C σ)
  | crash

namespace Stream

def make (me : Fin n) (persister : Persister n C σ) : Stream n C σ :=
  ⟨Raft.make me persister, (Raft.make me persister : Raft n C σ).lastIncludedIndex, [], []⟩

/-- One step.  `Snapshot` and `applyLog` are events of their own; all other critical sections run
with any arguments, at any time. -/
def step (s : Stream n C σ) : StreamEvent n C σ → Option (Stream n C σ)
  | .raft (.callSnapshot _ _) => none
  | .raft .applyLog => none
  | .raft x => (s.raft.handle x).map fun r => { s with raft := r.1 }
  | .applyLog =>
    if s.batch.isEmpty then
      s.raft.applyLog.map fun r => { s with raft := r.1, batch := r.2 }
    else none
  | .send =>
    match s.batch with
    | [] => none
    | msg :: batch => some { s with batch := batch, sent := s.sent ++ [msg] }
  | .snapshot index data =>
    if index ∈ s.sent.map ApplyMsg.index then
      some { s with raft := s.raft.callSnapshot index data }
    else none
  | .crash => some (make s.raft.me s.raft.persister)

/-- A snapshot that is going to be installed is ahead of what has been applied. -/
def Ahead (s : Stream n C σ) : StreamEvent n C σ → Prop
  | .raft (.installSnapshot args) =>
    s.raft.currentTerm ≤ args.term → s.raft.lastIncludedIndex < args.lastIncludedIndex →
      s.raft.lastApplied < args.lastIncludedIndex
  | _ => True

instance (s : Stream n C σ) : DecidablePred s.Ahead
  | .raft x => by
    cases x <;> dsimp only [Ahead] <;> infer_instance
  | .applyLog => .isTrue trivial
  | .send => .isTrue trivial
  | .snapshot _ _ => .isTrue trivial
  | .crash => .isTrue trivial

/-- Everything that has been collected, sent or not. -/
def collected (s : Stream n C σ) : List (ApplyMsg C σ) := s.sent ++ s.batch

/-- **Where the messages stand against the server's counters.**  A snapshot that has arrived and is
not collected yet is ahead of them. -/
structure Inv (s : Stream n C σ) : Prop where
  forward : Forward s.base s.collected
  applied : s.raft.lastApplied ≤ reached s.base s.collected
  pending : s.raft.applySnappending = true →
    reached s.base s.collected < s.raft.lastIncludedIndex
  idle : s.raft.applySnappending = false →
    reached s.base s.collected = max s.raft.lastApplied s.raft.lastIncludedIndex

variable {s s' : Stream n C σ}

lemma inv_make (me : Fin n) (persister : Persister n C σ) : (make me persister).Inv := by
  obtain ⟨happlied, hlii, hpend, -⟩ := Raft.mark_eq_iff.1 (Raft.mark_make me persister)
  have heq : (Raft.make me persister : Raft n C σ).lastApplied =
      (Raft.make me persister : Raft n C σ).lastIncludedIndex := happlied.trans hlii.symm
  refine ⟨forward_nil, heq.le, fun hp => ?_, fun _ => ?_⟩
  · exact absurd (hp.symm.trans hpend) (by simp)
  · show (Raft.make me persister : Raft n C σ).lastIncludedIndex =
      max (Raft.make me persister : Raft n C σ).lastApplied
        (Raft.make me persister : Raft n C σ).lastIncludedIndex
    rw [heq, max_self]

/-- A quiet section. -/
lemma Inv.quiet (hi : s.Inv) {rf : Raft n C σ} (hq : Raft.Quiet s.raft rf) :
    Inv { s with raft := rf } := by
  obtain ⟨happlied, hlii, hpend, -⟩ := Raft.mark_eq_iff.1 hq.1
  refine ⟨hi.forward, ?_, ?_, ?_⟩
  · exact happlied.le.trans hi.applied
  · intro hp
    exact (hi.pending (hpend.symm.trans hp)).trans_eq hlii.symm
  · intro hp
    show reached s.base s.collected = max rf.lastApplied rf.lastIncludedIndex
    rw [happlied, hlii]
    exact hi.idle (hpend.symm.trans hp)

/-- A snapshot arrives that is ahead of everything collected. -/
lemma Inv.installSnapshot (hi : s.Inv) {args : InstallSnapshotArgs n C σ}
    (hahead : s.Ahead (.raft (.installSnapshot args))) :
    Inv { s with raft := (s.raft.installSnapshot args).1 } := by
  obtain ⟨-, he⟩ | ⟨-, -, he⟩ | ⟨hterm, hlt, he⟩ := Raft.installSnapshot_cases s.raft args
  · rw [he]
    exact hi
  · rw [he]
    exact hi.quiet (Raft.quiet_followLeader args.term)
  · rw [he]
    have hquiet : Raft.Quiet s.raft (s.raft.followLeader args.term) :=
      Raft.quiet_followLeader args.term
    obtain ⟨happlied, -⟩ := Raft.mark_eq_iff.1 hquiet.1
    obtain ⟨hmark, -⟩ := Raft.mark_takeSnapshot (s.raft.followLeader args.term) args
    rw [happlied] at hmark
    obtain ⟨happlied', hlii, hpend, -⟩ := Raft.mark_eq_iff.1 hmark
    have hreached : reached s.base s.collected < args.lastIncludedIndex := by
      have hgt := hahead hterm hlt
      cases hp : s.raft.applySnappending with
      | true => exact (hi.pending hp).trans hlt
      | false =>
        rw [hi.idle hp]
        exact max_lt hgt hlt
    refine ⟨hi.forward, ?_, fun _ => ?_, fun hp => ?_⟩
    · exact happlied'.le.trans hi.applied
    · exact hreached.trans_eq hlii.symm
    · exact absurd (hp.symm.trans hpend) (by simp)

/-- The service calls `Snapshot` for an index it has been delivered. -/
lemma Inv.callSnapshot (hi : s.Inv) {index : ℕ} (hindex : index ∈ s.sent.map ApplyMsg.index)
    (data : Snapshot C σ) : Inv { s with raft := s.raft.callSnapshot index data } := by
  rcases Nat.lt_or_ge s.raft.lastIncludedIndex index with hlt | hge
  · obtain ⟨⟨covered, hmark⟩, -⟩ := Raft.mark_callSnapshot data hlt
    obtain ⟨happlied, hlii, hpend, -⟩ := Raft.mark_eq_iff.1 hmark
    have hle : index ≤ reached s.base s.collected := by
      obtain ⟨msg, hmsg, rfl⟩ := List.mem_map.1 hindex
      exact hi.forward.le_reached.2 msg (List.mem_append_left _ hmsg)
    refine ⟨hi.forward, ?_, fun hp => ?_, fun hp => ?_⟩
    · exact happlied.le.trans (max_le hi.applied hle)
    · -- a pending snapshot is ahead of every delivered index
      have := hi.pending (hpend.symm.trans hp)
      omega
    · show reached s.base s.collected = max (s.raft.callSnapshot index data).lastApplied
        (s.raft.callSnapshot index data).lastIncludedIndex
      rw [happlied, hlii]
      have := hi.idle (hpend.symm.trans hp)
      omega
  · rw [show s.raft.callSnapshot index data = s.raft from if_pos hge]
    exact hi

/-- `applyLog` collects a batch. -/
lemma Inv.applyLog (hi : s.Inv) (hb : s.batch = []) {rf : Raft n C σ} {msgs : List (ApplyMsg C σ)}
    (hs : s.raft.applyLog = some (rf, msgs)) : Inv { s with raft := rf, batch := msgs } := by
  obtain ⟨snap, cmds, lastApplied, rfl, rfl, hsnap, hcmds⟩ := Raft.applyLog_cases hs
  have hsent : s.collected = s.sent := by
    rw [collected, hb, List.append_nil]
  obtain ⟨hforward, happlied, hpending, hidle⟩ := hi
  rw [hsent] at hforward happlied hpending hidle
  -- once the snapshot is collected, the messages are where the commands start
  have hmid : Forward s.base (s.sent ++ snap) ∧
      reached s.base (s.sent ++ snap) = max s.raft.lastApplied s.raft.lastIncludedIndex := by
    obtain ⟨hp, rfl⟩ | ⟨hp, e, rfl⟩ := hsnap
    · rw [List.append_nil]
      exact ⟨hforward, hidle hp⟩
    · have hlt := hpending hp
      refine ⟨hforward.snapshot hlt _ _, ?_⟩
      rw [reached_concat]
      show s.raft.lastIncludedIndex = _
      omega
  obtain ⟨hf, hr⟩ := hmid
  have hend : Forward s.base (s.sent ++ snap ++ cmds) ∧
      reached s.base (s.sent ++ snap ++ cmds) = max lastApplied s.raft.lastIncludedIndex := by
    obtain ⟨-, rfl, rfl⟩ | ⟨-, hcmds, rfl⟩ := hcmds
    · rw [List.append_nil]
      exact ⟨hf, hr⟩
    · rw [← hr] at hcmds
      obtain ⟨hf', hr'⟩ := hf.commandMsgs hcmds
      exact ⟨hf', by omega⟩
  rw [List.append_assoc] at hend
  obtain ⟨hf', hr'⟩ := hend
  refine ⟨hf', ?_, fun hp => absurd hp (by simp), fun _ => hr'⟩
  show lastApplied ≤ reached s.base (s.sent ++ (snap ++ cmds))
  omega

lemma step_raft {x : Input n C σ} (hsnap : ∀ index data, x ≠ .callSnapshot index data)
    (happly : x ≠ .applyLog) :
    s.step (.raft x) = (s.raft.handle x).map fun r => { s with raft := r.1 } := by
  cases x <;> first | rfl | exact absurd rfl (hsnap _ _) | exact absurd rfl happly

/-- **One step keeps the messages in order.** -/
theorem Inv.step {e : StreamEvent n C σ} (hi : s.Inv) (hok : s.Ahead e)
    (hs : s.step e = some s') : s'.Inv := by
  cases e with
  | raft x =>
    cases x with
    | callSnapshot index data => cases hs
    | applyLog => cases hs
    | installSnapshot args =>
      cases hs
      exact hi.installSnapshot hok
    | _ =>
      rw [step_raft (by rintro _ _ ⟨⟩) (by rintro ⟨⟩)] at hs
      obtain ⟨⟨rf, terms⟩, hr, rfl⟩ := Option.map_eq_some_iff.1 hs
      exact hi.quiet (Raft.handle_quiet hr (by rintro _ ⟨⟩) (by rintro _ _ ⟨⟩) (by rintro ⟨⟩))
  | applyLog =>
    dsimp only [Stream.step] at hs
    split at hs
    · rename_i hb
      obtain ⟨r, hr, rfl⟩ := Option.map_eq_some_iff.1 hs
      exact hi.applyLog (List.isEmpty_iff.1 hb) hr
    · cases hs
  | send =>
    dsimp only [Stream.step] at hs
    split at hs
    · cases hs
    · rename_i msg batch hb
      cases hs
      have hcol : collected { s with batch := batch, sent := s.sent ++ [msg] } = s.collected := by
        rw [collected, collected, hb, List.append_assoc, List.singleton_append]
      refine ⟨?_, ?_, ?_, ?_⟩ <;> rw [hcol]
      · exact hi.forward
      · exact hi.applied
      · exact hi.pending
      · exact hi.idle
  | snapshot index data =>
    dsimp only [Stream.step] at hs
    split at hs
    · rename_i hindex
      cases hs
      exact hi.callSnapshot hindex data
    · cases hs
  | crash =>
    cases hs
    exact inv_make _ _

lemma inv_of_ahead {me : Fin n} {persister : Persister n C σ}
    (h : Reachable step Ahead (make me persister) s) : s.Inv :=
  Reachable.invariant (P := Inv) (inv_make me persister)
    (fun _ _ _ _ hi hok hs => Inv.step hi hok hs) h

/-- **The apply stream only moves forward** in every run in which no snapshot is installed that is
not ahead of `lastApplied`. -/
theorem apply_stream_forward (me : Fin n) (persister : Persister n C σ)
    (h : Reachable step Ahead (make me persister) s) : Forward s.base s.sent :=
  (inv_of_ahead h).forward.mono

/-- A snapshot, and the first command after it. -/
def catchUp : List (StreamEvent 3 ℕ (List ℕ)) :=
  [.raft (.installSnapshot ⟨1, 0, 2, 1, some ⟨2, [10, 20], []⟩⟩), .applyLog, .send,
    .raft (.applyEntries ⟨1, 0, 2, 1, [⟨30, 1⟩], 3⟩), .applyLog, .send]

theorem apply_stream_forward_catchUp : ∃ s : Stream 3 ℕ (List ℕ),
    Reachable step Ahead (make 1 ⟨none, none⟩) s ∧ s.sent.map ApplyMsg.index = [2, 3] ∧
    Forward s.base s.sent := by
  have hrun : (run (guarded step Ahead) (make 1 ⟨none, none⟩) catchUp).map
      (fun s => s.sent.map ApplyMsg.index) = some [2, 3] := by
    decide +kernel
  obtain ⟨s, hs, hsent⟩ := Option.map_eq_some_iff.1 hrun
  have hr := Reachable.init.run_guarded hs
  exact ⟨s, hr, hsent, apply_stream_forward _ _ hr⟩

/-- Two entries have been applied when a snapshot of the first one arrives. -/
def oldSnapshot : List (StreamEvent 3 ℕ (List ℕ)) :=
  [.raft (.applyEntries ⟨1, 0, 0, 0, [⟨10, 1⟩, ⟨20, 1⟩], 0⟩),
    .raft (.applyEntries ⟨1, 0, 2, 1, [], 2⟩), .applyLog, .send, .send,
    .raft (.installSnapshot ⟨1, 0, 1, 1, some ⟨1, [10], []⟩⟩), .applyLog, .send,
    .raft (.applyEntries ⟨1, 0, 2, 1, [⟨30, 1⟩], 3⟩), .applyLog, .send]

/-- The leader's snapshot would be installed by a server that has applied as much already. -/
def SendsBack (rf : Raft n C σ) : Rpc n C σ → Prop
  | .installSnapshot args =>
    rf.currentTerm ≤ args.term ∧ rf.lastIncludedIndex < args.lastIncludedIndex ∧
      args.lastIncludedIndex ≤ rf.lastApplied
  | _ => False

instance (rf : Raft n C σ) : DecidablePred (SendsBack rf) := fun rpc => by
  cases rpc <;> dsimp only [SendsBack] <;> infer_instance

/-- Server `1` has applied the first entry, but none of its answers has reached the leader, which
now sends it a snapshot. -/
def lostReplies : List (Event 3 ℕ) :=
  [.electionTimeout 0, .deliver 0, .deliver 1, .drop 0, .start 0 10, .deliver 0, .deliver 0,
    .deliver 1, .drop 0, .heartbeatTimeout 0, .deliver 0, .drop 0, .drop 0, .applyLog 1,
    .applyMsg 1, .applyLog 0, .applyMsg 0, .snapshot 0 1, .heartbeatTimeout 0]

/-- **An old snapshot sends the stream back**: the snapshot message is for index `1` after command
`2`, and the next command has index `3`.  Such a snapshot is sent in a run of the whole cluster. -/
theorem oldSnapshot_not_forward :
    (∃ s : Stream 3 ℕ (List ℕ), Reachable step anyStep (make 1 ⟨none, none⟩) s ∧
      s.sent = [.command 10 1, .command 20 2, .snapshot (some ⟨1, [10], []⟩) 1 1, .command 30 3] ∧
      ¬ Forward s.base s.sent) ∧
    ∃ s : Cluster 3 ℕ, Reachable Cluster.step anyStep Cluster.init s ∧
      ∃ p ∈ s.net, SendsBack (s.raft p.callee) p.rpc := by
  constructor
  · have hrun : (run step (make 1 ⟨none, none⟩) oldSnapshot).map Stream.sent =
        some [.command 10 1, .command 20 2, .snapshot (some ⟨1, [10], []⟩) 1 1, .command 30 3] := by
      decide +kernel
    obtain ⟨s, hs, hsent⟩ := Option.map_eq_some_iff.1 hrun
    refine ⟨s, Reachable.init.run hs, hsent, fun hf => ?_⟩
    rw [hsent] at hf
    have hnext := hf [.command 10 1, .command 20 2] (.snapshot (some ⟨1, [10], []⟩) 1 1) ⟨_, rfl⟩
    exact absurd (hnext.2 (.command 20 2) (by simp)) (by decide)
  · have hrun : ((run Cluster.step (Cluster.init : Cluster 3 ℕ) lostReplies).map
        fun s => decide (∃ p ∈ s.net, SendsBack (s.raft p.callee) p.rpc)) = some true := by
      decide +kernel
    obtain ⟨s, hs, hback⟩ := Option.map_eq_some_iff.1 hrun
    exact ⟨s, Reachable.init.run hs, of_decide_eq_true hback⟩

end Stream

end RaftLabs
