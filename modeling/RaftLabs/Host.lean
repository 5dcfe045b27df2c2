import RaftLabs.KvRaft.Server
import RaftLabs.Raft.ApplyStream
import RaftLabs.ShardKv.Server

/-!
# A Raft server together with its service

The process that runs both: the critical sections of the Raft server, the goroutine `applyLog` that
sends a batch of messages outside of the lock, the service that takes them one by one, the goroutine
`makeSnapshot` that captures the service's state and later calls `Snapshot`, and crashes.

A `Service` is what kvraft and shardkv have in common here: a state machine with a position
`LastApplied`, which panics on a command that is not the next one and on a snapshot whose bytes do
not start with its index.  The relation between that position and Raft's counters, which the code
never writes down, is `Aligned`: once the messages on their way are taken, the service stands where
`lastApplied` and `lastIncludedIndex` say, except that a snapshot which has arrived and is not sent
yet may have put `lastIncludedIndex` ahead of it.
-/

namespace RaftLabs

open Lib

/-- A service on top of Raft.  The laws are what the rest of this module uses of the code. -/
structure Service (C σ : Type) where
  State : Type
  start : State
  lastApplied : State → ℕ
  exec : State → C → ℕ → Option State
  makeSnapshot : State → ℕ × σ
  applySnapshot : State → ℕ → ℕ × σ → Option State
  restoreState : State → Option (ℕ × σ) → State
  /-- What the service's own goroutines change between two messages. -/
  Background : Type
  background : State → Background → State
  lastApplied_start : lastApplied start = 0
  exec_isSome {k c index} : (exec k c index).isSome ↔ index = lastApplied k + 1
  lastApplied_exec {k c index k'} : exec k c index = some k' → lastApplied k' = index
  makeSnapshot_index k : (makeSnapshot k).1 = lastApplied k
  applySnapshot_isSome {k index d} : (applySnapshot k index d).isSome ↔ d.1 = index
  lastApplied_applySnapshot {k index d k'} : applySnapshot k index d = some k' →
    lastApplied k' = max (lastApplied k) index
  lastApplied_restoreState k d :
    lastApplied (restoreState k d) = (d.map Prod.fst).getD (lastApplied k)
  lastApplied_background k b : lastApplied (background k b) = lastApplied k

/-- kvraft. -/
def kvraft : Service KvRaft.Op KvRaft.Image where
  State := KvRaft.KVServer
  start := KvRaft.KVServer.init
  lastApplied := KvRaft.KVServer.lastApplied
  exec := KvRaft.KVServer.execOp
  makeSnapshot := KvRaft.KVServer.makeSnapshot
  applySnapshot := KvRaft.KVServer.applySnapshot
  restoreState := KvRaft.KVServer.restoreState
  Background := Empty
  background kv _ := kv
  lastApplied_start := rfl
  exec_isSome := KvRaft.KVServer.execOp_isSome
  lastApplied_exec := KvRaft.KVServer.execOp_lastApplied
  makeSnapshot_index _ := rfl
  applySnapshot_isSome := KvRaft.KVServer.applySnapshot_isSome
  lastApplied_applySnapshot := KvRaft.KVServer.applySnapshot_lastApplied
  lastApplied_restoreState _ d := by cases d <;> rfl
  lastApplied_background _ _ := rfl

/-- shardkv, for the group `gid`; what happens beside the log is that `tryGC` shortens `GCList`. -/
def shardkv (gid : Ctrler.Gid) : Service ShardKv.Command ShardKv.Image where
  State := ShardKv.ShardKV
  start := ShardKv.ShardKV.init gid
  lastApplied := ShardKv.ShardKV.lastApplied
  exec kv command index := (kv.execCommand command index).map Prod.fst
  makeSnapshot := ShardKv.ShardKV.makeSnapshot
  applySnapshot := ShardKv.ShardKV.applySnapshot
  restoreState := ShardKv.ShardKV.restoreState
  Background := ℕ × ShardKv.Shard
  background kv gc := kv.collected gc.1 gc.2
  lastApplied_start := rfl
  exec_isSome := by
    intro kv command index
    rw [Option.isSome_map]
    exact ShardKv.ShardKV.execCommand_isSome
  lastApplied_exec := by
    intro kv command index kv' h
    obtain ⟨r, hr, rfl⟩ := Option.map_eq_some_iff.1 h
    exact ShardKv.ShardKV.execCommand_lastApplied hr
  makeSnapshot_index _ := rfl
  applySnapshot_isSome := ShardKv.ShardKV.applySnapshot_isSome
  lastApplied_applySnapshot := ShardKv.ShardKV.applySnapshot_lastApplied
  lastApplied_restoreState _ d := by cases d <;> rfl
  lastApplied_background _ _ := rfl

variable {n : ℕ} {C σ : Type} [Inhabited C]

/-- The applier of the service takes a message; `none` is a panic. -/
def Service.applier (svc : Service C σ) (k : svc.State) : ApplyMsg C σ → Option svc.State
  | .command c index => svc.exec k c index
  | .snapshot none _ _ => none
  | .snapshot (some data) _ index => svc.applySnapshot k index (data.index, data.state)

/-- The process: `batch` is what `applyLog` has still to send, `captured` what `makeSnapshot` is
about to pass to `Snapshot`. -/
structure Host (n : ℕ) {C σ : Type} (svc : Service C σ) where
  raft : Raft n C σ
  batch : List (ApplyMsg C σ)
  service : svc.State
  captured : Option (ℕ × σ)

/-- What can happen next. -/
inductive HostEvent (n : ℕ) {C σ : Type} (svc : Service C σ)
  | raft (x : Input n C σ)
  | applyLog
  | applyMsg
  | capture
  | snapshot
  | background (b : svc.Background)
  | crash

namespace Host

variable {svc : Service C σ}

/-- A process that has just been started for the first time. -/
def init (svc : Service C σ) (me : Fin n) : Host n svc :=
  ⟨Raft.make me ⟨none, none⟩, [], svc.start, none⟩

/-- One step.  `Snapshot` and the loop of `applyLog` are events of their own; all other critical
sections of Raft run with any arguments, at any time. -/
def step (h : Host n svc) : HostEvent n svc → Option (Host n svc)
  | .raft (.callSnapshot _ _) => none
  | .raft .applyLog => none
  | .raft x => (h.raft.handle x).map fun r => { h with raft := r.1 }
  | .applyLog =>
    if h.batch.isEmpty then
      h.raft.applyLog.map fun r => { h with raft := r.1, batch := r.2 }
    else none
  | .applyMsg =>
    match h.batch with
    | [] => none
    | msg :: batch => (svc.applier h.service msg).map fun k => { h with batch := batch, service := k }
  | .capture => some { h with captured := some (svc.makeSnapshot h.service) }
  | .snapshot =>
    h.captured.map fun d =>
      { h with raft := h.raft.callSnapshot d.1 ⟨d.1, d.2, []⟩, captured := none }
  | .background b => some { h with service := svc.background h.service b }
  | .crash =>
    some
      { raft := Raft.make h.raft.me h.raft.persister
        batch := []
        service := svc.restoreState svc.start
          (h.raft.persister.snapshot.map fun d => (d.index, d.state))
        captured := none }

/-- The bytes of a snapshot that arrives from a leader start with its index. -/
def Encoded (_ : Host n svc) : HostEvent n svc → Prop
  | .raft (.installSnapshot args) =>
    0 < args.lastIncludedIndex → args.data.map Snapshot.index = some args.lastIncludedIndex
  | _ => True

end Host

/-! ### What is on its way to the service -/

/-- A service at position `p` can take these messages, and is at `q` then. -/
inductive Follows : ℕ → List (ApplyMsg C σ) → ℕ → Prop
  | nil (p : ℕ) : Follows p [] p
  | command {p q : ℕ} {msgs : List (ApplyMsg C σ)} (c : C) : Follows (p + 1) msgs q →
      Follows p (.command c (p + 1) :: msgs) q
  | snapshot {p q index : ℕ} {msgs : List (ApplyMsg C σ)} (data : Snapshot C σ) (term : ℕ) :
      data.index = index → Follows (max p index) msgs q →
      Follows p (.snapshot (some data) term index :: msgs) q

section Follows

variable {svc : Service C σ} {p q : ℕ} {msgs : List (ApplyMsg C σ)} {rf : Raft n C σ}

omit [Inhabited C] in
lemma Follows.le (h : Follows p msgs q) : p ≤ q := by
  induction h with
  | nil p => exact le_rfl
  | command c _ ih => omega
  | snapshot data term _ _ ih => omega

omit [Inhabited C] in
/-- The commands that `applyLog` collects follow each other. -/
lemma follows_commandMsgs {count : ℕ} (h : rf.commandMsgs (p + 1) count = some msgs) :
    Follows p msgs (p + count) := by
  induction count generalizing p msgs with
  | zero =>
    cases h
    exact .nil p
  | succ count ih =>
    obtain ⟨e, -, h⟩ := Option.bind_eq_some_iff.1 h
    obtain ⟨rest, hrest, rfl⟩ := Option.map_eq_some_iff.1 h
    rw [show p + (count + 1) = p + 1 + count by omega]
    exact .command e.command (ih hrest)

omit [Inhabited C] in
/-- The service takes the next message without a panic. -/
lemma Follows.applier {msg : ApplyMsg C σ} {k : svc.State}
    (h : Follows (svc.lastApplied k) (msg :: msgs) q) :
    (∀ c index, msg = .command c index → index = svc.lastApplied k + 1) ∧
    ∃ k', svc.applier k msg = some k' ∧ svc.lastApplied k ≤ svc.lastApplied k' ∧
      Follows (svc.lastApplied k') msgs q := by
  cases h with
  | command c h =>
    refine ⟨fun _ _ he => (ApplyMsg.command.inj he).2.symm, ?_⟩
    obtain ⟨k', hk'⟩ := Option.isSome_iff_exists.1 (svc.exec_isSome.2 rfl)
    have hpos := svc.lastApplied_exec hk'
    refine ⟨k', hk', by omega, ?_⟩
    rw [hpos]
    exact h
  | @snapshot _ _ index _ data term hd h =>
    refine ⟨fun _ _ he => (nomatch he), ?_⟩
    obtain ⟨k', hk'⟩ := Option.isSome_iff_exists.1
      ((svc.applySnapshot_isSome (k := k) (d := (data.index, data.state))).2 hd)
    have hpos := svc.lastApplied_applySnapshot hk'
    refine ⟨k', hk', by omega, ?_⟩
    rw [hpos]
    exact h

end Follows

namespace Host

variable {svc : Service C σ} {h h' : Host n svc}

/-- **Where the service stands**, once it has taken what is on its way. -/
structure Aligned (m : Raft.Mark C σ) (q : ℕ) : Prop where
  applied : m.lastApplied ≤ q
  ahead : q ≤ max m.lastApplied m.lastIncludedIndex
  sent : m.applySnappending = false → q = max m.lastApplied m.lastIncludedIndex

/-- What holds of the process in every run. -/
structure Inv (h : Host n svc) : Prop where
  saved : h.raft.Saved
  index : (h.raft.snapshot.map Snapshot.index).getD 0 = h.raft.lastIncludedIndex
  pending : h.raft.applySnappending = true → 0 < h.raft.lastIncludedIndex
  captured : ∀ d, h.captured = some d → d.1 ≤ svc.lastApplied h.service
  position : ∃ q, Follows (svc.lastApplied h.service) h.batch q ∧ Aligned h.raft.mark q

lemma inv_init (me : Fin n) : (init svc me).Inv where
  saved := rfl
  index := rfl
  pending h := by cases h
  captured _ h := by cases h
  position := by
    refine ⟨0, ?_, ⟨le_rfl, le_rfl, fun _ => rfl⟩⟩
    show Follows (svc.lastApplied svc.start) [] 0
    rw [svc.lastApplied_start]
    exact .nil 0

/-- A quiet section of Raft. -/
lemma Inv.quiet (hi : h.Inv) {rf : Raft n C σ} (hq : Raft.Quiet h.raft rf) :
    Inv { h with raft := rf } := by
  obtain ⟨hmark, hsaved⟩ := hq
  obtain ⟨-, hlii, hpend, hsnap⟩ := Raft.mark_eq_iff.1 hmark
  refine ⟨hsaved hi.saved, ?_, ?_, hi.captured, ?_⟩
  · show (rf.snapshot.map Snapshot.index).getD 0 = rf.lastIncludedIndex
    rw [hlii, hsnap]
    exact hi.index
  · show rf.applySnappending = true → 0 < rf.lastIncludedIndex
    rw [hlii, hpend]
    exact hi.pending
  · show ∃ q, Follows (svc.lastApplied h.service) h.batch q ∧ Aligned rf.mark q
    rw [hmark]
    exact hi.position

/-- A snapshot arrives.  `lastIncludedIndex` may now be ahead of the service. -/
lemma Inv.installSnapshot (hi : h.Inv) {args : InstallSnapshotArgs n C σ}
    (hdata : 0 < args.lastIncludedIndex →
      args.data.map Snapshot.index = some args.lastIncludedIndex) :
    Inv { h with raft := (h.raft.installSnapshot args).1 } := by
  obtain ⟨-, he⟩ | ⟨-, -, he⟩ | ⟨-, hlt, he⟩ := Raft.installSnapshot_cases h.raft args
  · rw [he]
    exact hi
  · rw [he]
    exact hi.quiet (Raft.quiet_followLeader args.term)
  · rw [he]
    have hquiet : Raft.Quiet h.raft (h.raft.followLeader args.term) :=
      Raft.quiet_followLeader args.term
    obtain ⟨hmark, hsaved⟩ := Raft.mark_takeSnapshot (h.raft.followLeader args.term) args
    obtain ⟨happlied, -⟩ := Raft.mark_eq_iff.1 hquiet.1
    obtain ⟨-, hlii, -, hsnap⟩ := Raft.mark_eq_iff.1 hmark
    have hpos : 0 < args.lastIncludedIndex := by omega
    refine ⟨hsaved, ?_, fun _ => hpos.trans_eq hlii.symm, hi.captured, ?_⟩
    · show (((h.raft.followLeader args.term).takeSnapshot args).snapshot.map Snapshot.index).getD 0 =
        ((h.raft.followLeader args.term).takeSnapshot args).lastIncludedIndex
      rw [hsnap, hdata hpos]
      exact hlii.symm
    · obtain ⟨q, hf, ha⟩ := hi.position
      refine ⟨q, hf, ?_⟩
      rw [hmark, happlied]
      refine ⟨ha.applied, ha.ahead.trans ?_, fun h => by cases h⟩
      exact max_le_max le_rfl hlt.le

/-- The service calls `Snapshot` with what it had captured. -/
lemma Inv.callSnapshot (hi : h.Inv) {d : ℕ × σ} (hd : h.captured = some d) :
    Inv { h with raft := h.raft.callSnapshot d.1 ⟨d.1, d.2, []⟩, captured := none } := by
  rcases Nat.lt_or_ge h.raft.lastIncludedIndex d.1 with hlt | hge
  · obtain ⟨⟨covered, hmark⟩, hsaved⟩ := Raft.mark_callSnapshot (⟨d.1, d.2, []⟩ : Snapshot C σ) hlt
    obtain ⟨-, hlii, -, hsnap⟩ := Raft.mark_eq_iff.1 hmark
    refine ⟨hsaved, ?_, fun _ => ?_, fun _ h => (by cases h), ?_⟩
    · exact (congrArg (fun s => (s.map Snapshot.index).getD 0) hsnap).trans hlii.symm
    · exact (Nat.zero_lt_of_lt hlt).trans_eq hlii.symm
    · obtain ⟨q, hf, ha⟩ := hi.position
      refine ⟨q, hf, ?_⟩
      -- the service has been at the captured index
      have hq : d.1 ≤ q := (hi.captured d hd).trans hf.le
      have h₁ : h.raft.lastApplied ≤ q := ha.applied
      have h₂ : q ≤ max h.raft.lastApplied h.raft.lastIncludedIndex := ha.ahead
      show Aligned (h.raft.callSnapshot d.1 ⟨d.1, d.2, []⟩).mark q
      rw [hmark]
      constructor
      · show max h.raft.lastApplied d.1 ≤ q
        omega
      · show q ≤ max (max h.raft.lastApplied d.1) d.1
        omega
      · intro _
        show q = max (max h.raft.lastApplied d.1) d.1
        omega
  · rw [show h.raft.callSnapshot d.1 ⟨d.1, d.2, []⟩ = h.raft from if_pos hge]
    exact ⟨hi.saved, hi.index, hi.pending, fun _ h => (by cases h), hi.position⟩

/-- `applyLog` collects a batch. -/
lemma Inv.applyLog (hi : h.Inv) (hb : h.batch = []) {rf : Raft n C σ} {msgs : List (ApplyMsg C σ)}
    (hs : h.raft.applyLog = some (rf, msgs)) : Inv { h with raft := rf, batch := msgs } := by
  obtain ⟨snap, cmds, lastApplied, rfl, rfl, hsnap, hcmds⟩ := Raft.applyLog_cases hs
  refine ⟨hi.saved, hi.index, fun h => (by cases h), hi.captured, ?_⟩
  obtain ⟨q, hf, ha⟩ := hi.position
  rw [hb] at hf
  cases hf
  have h₁ : h.raft.lastApplied ≤ svc.lastApplied h.service := ha.applied
  have h₂ : svc.lastApplied h.service ≤ max h.raft.lastApplied h.raft.lastIncludedIndex := ha.ahead
  -- the commands start where the snapshot, if there is one, leaves the service
  have hrest : ∃ q, Follows (max h.raft.lastApplied h.raft.lastIncludedIndex) cmds q ∧
      q = max lastApplied h.raft.lastIncludedIndex := by
    obtain ⟨-, rfl, rfl⟩ | ⟨-, hcmds, rfl⟩ := hcmds
    · exact ⟨_, .nil _, rfl⟩
    · exact ⟨_, follows_commandMsgs hcmds, by omega⟩
  obtain ⟨q', hf', hq'⟩ := hrest
  refine ⟨q', ?_, ?_⟩
  · show Follows (svc.lastApplied h.service) (snap ++ cmds) q'
    obtain ⟨hp, rfl⟩ | ⟨hp, e, rfl⟩ := hsnap
    · rw [List.nil_append, show svc.lastApplied h.service =
        max h.raft.lastApplied h.raft.lastIncludedIndex from ha.sent hp]
      exact hf'
    · have hidx := hi.index
      cases hd : h.raft.snapshot with
      | none =>
        rw [hd] at hidx
        exact absurd (hi.pending hp) (by rw [← hidx]; exact lt_irrefl 0)
      | some d =>
        rw [hd] at hidx
        refine .snapshot d e.term hidx ?_
        rw [show max (svc.lastApplied h.service) h.raft.lastIncludedIndex =
          max h.raft.lastApplied h.raft.lastIncludedIndex by omega]
        exact hf'
  · refine ⟨?_, ?_, fun _ => ?_⟩
    · exact (le_max_left _ _).trans hq'.ge
    · exact hq'.le
    · exact hq'

/-- The process restarts. -/
lemma inv_crash (hs : h.step .crash = some h') : h'.Inv := by
  cases hs
  have hmark := Raft.mark_make h.raft.me h.raft.persister
  obtain ⟨-, hlii, hpend, hsnap⟩ := Raft.mark_eq_iff.1 hmark
  refine ⟨?_, ?_, fun hp => ?_, fun _ h => (by cases h), ?_⟩
  · have hpers : (Raft.make h.raft.me h.raft.persister : Raft n C σ).persister =
        h.raft.persister := by
      rcases h.raft.persister with ⟨_ | _, _ | _⟩ <;> rfl
    exact (congrArg Persister.snapshot hpers).trans hsnap.symm
  · exact (congrArg (fun s => (s.map Snapshot.index).getD 0) hsnap).trans hlii.symm
  · exact absurd (hp.symm.trans hpend) (by simp)
  · refine ⟨(h.raft.persister.snapshot.map Snapshot.index).getD 0, ?_, ?_⟩
    · show Follows (svc.lastApplied (svc.restoreState svc.start _)) [] _
      rw [svc.lastApplied_restoreState, svc.lastApplied_start]
      cases h.raft.persister.snapshot <;> exact .nil _
    · rw [hmark]
      exact ⟨le_rfl, le_max_left _ _, fun _ => (max_self _).symm⟩

lemma step_raft {x : Input n C σ} (hsnap : ∀ index data, x ≠ .callSnapshot index data)
    (happly : x ≠ .applyLog) :
    h.step (.raft x) = (h.raft.handle x).map fun r => { h with raft := r.1 } := by
  cases x <;> first | rfl | exact absurd rfl (hsnap _ _) | exact absurd rfl happly

/-- **One step keeps the service aligned.** -/
theorem Inv.step {e : HostEvent n svc} (hi : h.Inv) (hok : Encoded h e)
    (hs : h.step e = some h') : h'.Inv := by
  cases e with
  | raft x =>
    cases x with
    | callSnapshot index data => cases hs
    | applyLog => cases hs
    | installSnapshot args =>
      cases hs
      exact hi.installSnapshot hok
    | _ =>
      rw [step_raft (by rintro _ _ ⟨⟩) (by rintro ⟨⟩)] at hs
      obtain ⟨⟨rf, terms⟩, hr, rfl⟩ := Option.map_eq_some_iff.1 hs
      exact hi.quiet (Raft.handle_quiet hr (by rintro _ ⟨⟩) (by rintro _ _ ⟨⟩) (by rintro ⟨⟩))
  | applyLog =>
    dsimp only [Host.step] at hs
    split at hs
    · rename_i hb
      obtain ⟨r, hr, rfl⟩ := Option.map_eq_some_iff.1 hs
      exact hi.applyLog (List.isEmpty_iff.1 hb) hr
    · cases hs
  | applyMsg =>
    dsimp only [Host.step] at hs
    split at hs
    · cases hs
    · rename_i msg batch hb
      obtain ⟨k, hk, rfl⟩ := Option.map_eq_some_iff.1 hs
      obtain ⟨q, hf, ha⟩ := hi.position
      rw [hb] at hf
      obtain ⟨-, k', hk', hle, hf'⟩ := hf.applier
      obtain rfl : k = k' := Option.some.inj (hk.symm.trans hk')
      exact ⟨hi.saved, hi.index, hi.pending, fun d hd => (hi.captured d hd).trans hle, q, hf', ha⟩
  | capture =>
    cases hs
    refine ⟨hi.saved, hi.index, hi.pending, fun d hd => ?_, hi.position⟩
    cases hd
    exact (svc.makeSnapshot_index h.service).le
  | snapshot =>
    obtain ⟨d, hd, rfl⟩ := Option.map_eq_some_iff.1 hs
    exact hi.callSnapshot hd
  | background b =>
    cases hs
    have hpos := svc.lastApplied_background h.service b
    refine ⟨hi.saved, hi.index, hi.pending, ?_, ?_⟩
    · intro d hd
      rw [hpos]
      exact hi.captured d hd
    · show ∃ q, Follows (svc.lastApplied (svc.background h.service b)) h.batch q ∧ _
      rw [hpos]
      exact hi.position
  | crash => exact inv_crash hs

/-- The next message, if there is one, is the next command, or a snapshot that can be read. -/
def Ready (h : Host n svc) : Prop :=
  ∀ msg batch, h.batch = msg :: batch →
    (∀ c index, msg = .command c index → index = svc.lastApplied h.service + 1) ∧
    (svc.applier h.service msg).isSome

omit [Inhabited C] in
lemma Inv.ready (hi : h.Inv) : h.Ready := by
  intro msg batch hb
  obtain ⟨q, hf, -⟩ := hi.position
  rw [hb] at hf
  obtain ⟨hnext, k', hk', -⟩ := hf.applier
  exact ⟨hnext, Option.isSome_of_eq_some hk'⟩

lemma reachable_ready {me : Fin n} (hr : Reachable step Encoded (init svc me) h) : h.Ready :=
  (Reachable.invariant (P := Inv) (inv_init me)
    (fun _ _ _ _ hi hok hs => Inv.step hi hok hs) hr).ready

/-- **Services never see a gap or a repeat.**  In every run, whatever kvraft or shardkv takes off
`applyCh` next is the command after `LastApplied` or a snapshot with its own index, so that none of
the panics of `execOp`, `execCommand` and `applySnapshot` is reached. -/
theorem no_gap_no_repeat (n : ℕ) (me : Fin n) :
    (∀ h : Host n kvraft, Reachable step Encoded (init kvraft me) h → h.Ready) ∧
    ∀ (gid : Ctrler.Gid) (h : Host n (shardkv gid)),
      Reachable step Encoded (init (shardkv gid) me) h → h.Ready :=
  ⟨fun _ => reachable_ready, fun _ _ => reachable_ready⟩

/-- What a leader sends with its first command, which it has committed. -/
def firstEntry (c : C) : ApplyEntriesArgs 2 C := ⟨1, 1, 0, 0, [⟨c, 1⟩], 1⟩

/-- A run in which a command is on its way to the service. -/
lemma reachable_firstEntry (svc : Service C σ) (c : C) : ∃ h : Host 2 svc,
    Reachable step Encoded (init svc 0) h ∧ h.batch = [.command c 1] := by
  have h₀ : Reachable step Encoded (init svc (0 : Fin 2)) (init svc 0) := .init
  have h₁ := h₀.step (.raft (.applyEntries (firstEntry c))) trivial rfl
  exact ⟨_, h₁.step .applyLog trivial rfl, rfl⟩

theorem no_gap_no_repeat_first_command :
    (∃ h : Host 2 kvraft, Reachable step Encoded (init kvraft 0) h ∧ h.batch ≠ [] ∧ h.Ready) ∧
    ∃ h : Host 2 (shardkv 1), Reachable step Encoded (init (shardkv 1) 0) h ∧ h.batch ≠ [] ∧
      h.Ready := by
  obtain ⟨h, hr, hb⟩ := reachable_firstEntry kvraft default
  obtain ⟨h', hr', hb'⟩ := reachable_firstEntry (shardkv 1) default
  exact ⟨⟨h, hr, by simp [hb], (no_gap_no_repeat 2 0).1 h hr⟩,
    ⟨h', hr', by simp [hb'], (no_gap_no_repeat 2 0).2 1 h' hr'⟩⟩

end Host

end RaftLabs
