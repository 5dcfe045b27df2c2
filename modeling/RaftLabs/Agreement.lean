import RaftLabs.Raft.Validity
import RaftLabs.Replicas

/-!
# All replicas execute one log

The processes of `Replicas` run a real service, whose snapshots are bytes; the cluster of the safety
proofs runs the ideal service, whose state is the list of the commands it has executed.  Here the
first is shown to be an implementation of the second: every run of the processes is accompanied by a
run of the cluster (`Shows`), with a process and a node that agree in their Raft servers up to the
contents of snapshots (`Twin`).  What makes the two comparable is that a snapshot that is on its way
anywhere is, on the one side, the bytes of a service state and, on the other, commands that lead to
this state (`Annotated`).

It follows that the services of all processes go through prefixes of one common log, and that every
command in it was handed to `Start` at a leader (`Replicas.one_log`).
-/

set_option linter.unusedSectionVars false

namespace RaftLabs

open Lib

variable {n : ℕ} {C σ : Type} [Inhabited C]

/-! ### Services and the commands they have executed -/

/-- What a service has to do so that its replicas stay together, besides `Variant`: it ignores a
snapshot of its own past, and starts anew when there is none. -/
structure Faithful (svc : Service C σ) (Like : svc.State → svc.State → Prop) : Prop
    extends Variant svc Like where
  stale {k k' : svc.State} {index : ℕ} {d : ℕ × σ} : svc.applySnapshot k index d = some k' →
    index < svc.lastApplied k → k' = k
  fresh : svc.restoreState svc.start none = svc.start

lemma KvRaft.KVServer.applySnapshot_stale {kv kv' : KVServer} {index : ℕ} {d : ℕ × Image}
    (hs : kv.applySnapshot index d = some kv') (hlt : index < kv.lastApplied) : kv' = kv := by
  unfold applySnapshot at hs
  rw [if_pos hlt] at hs
  split_ifs at hs
  exact (Option.some.inj hs).symm

lemma ShardKv.ShardKV.applySnapshot_stale {kv kv' : ShardKV} {index : ℕ} {d : ℕ × Image}
    (hs : kv.applySnapshot index d = some kv') (hlt : index < kv.lastApplied) : kv' = kv := by
  unfold applySnapshot at hs
  rw [if_pos hlt] at hs
  split_ifs at hs
  exact (Option.some.inj hs).symm

lemma faithful_kvraft : Faithful kvraft fun kv₀ kv => kv = kv₀ where
  toVariant := variant_kvraft
  stale := KvRaft.KVServer.applySnapshot_stale
  fresh := rfl

lemma faithful_shardkv (gid : Ctrler.Gid) : Faithful (shardkv gid) fun kv₀ kv =>
    kv.gid = gid ∧ ∃ l ⊆ kv₀.gcList, kv = kv₀.withGC l where
  toVariant := variant_shardkv gid
  stale := ShardKv.ShardKV.applySnapshot_stale
  fresh := rfl

section Replays

variable {svc : Service C σ} (Like : svc.State → svc.State → Prop)

/-- A replica that has executed `log` may be in the state `k`. -/
def Replays (log : List C) (k : svc.State) : Prop := ∃ k₀, svc.applyAll log = some k₀ ∧ Like k₀ k

/-- The bytes of a snapshot together with the commands they stand for. -/
def Annotated : Type :=
  { d : σ × List C // ∃ k, Replays Like d.2 k ∧ (svc.makeSnapshot k).2 = d.1 }

variable {Like}

def Annotated.bytes (d : Annotated Like) : σ := d.1.1

def Annotated.commands (d : Annotated Like) : List C := d.1.2

variable {log : List C} {k k' : svc.State}

lemma Replays.lastApplied (hv : Faithful svc Like) (h : Replays Like log k) :
    svc.lastApplied k = log.length := by
  obtain ⟨k₀, hk₀, hl⟩ := h
  exact hv.toVariant.lastApplied hk₀ hl

lemma Replays.makeSnapshot (hv : Faithful svc Like) (h : Replays Like log k) :
    svc.makeSnapshot k = (log.length, (svc.makeSnapshot k).2) :=
  Prod.ext ((svc.makeSnapshot_index k).trans (h.lastApplied hv)) rfl

/-- The bytes are those of a state that the commands lead to. -/
lemma Annotated.spec (hv : Faithful svc Like) (d : Annotated Like) :
    ∃ k, Replays Like d.commands k ∧ svc.makeSnapshot k = (d.commands.length, d.bytes) := by
  obtain ⟨k, hk, hbytes⟩ := d.2
  exact ⟨k, hk, (hk.makeSnapshot hv).trans (Prod.ext rfl hbytes)⟩

lemma replays_start (hv : Faithful svc Like) : Replays Like [] svc.start :=
  ⟨svc.start, rfl, hv.start⟩

/-- The next command is executed. -/
lemma Replays.exec (hv : Faithful svc Like) (h : Replays Like log k) {c : C} {index : ℕ}
    (hs : svc.exec k c index = some k') : index = log.length + 1 ∧ Replays Like (log ++ [c]) k' := by
  have hindex : index = log.length + 1 := by
    rw [← h.lastApplied hv]
    exact svc.exec_isSome.1 (Option.isSome_of_eq_some hs)
  obtain ⟨k₀, hk₀, hl⟩ := h
  obtain ⟨k₀', hk₀', -⟩ := svc.exists_applyAll (log ++ [c])
  have hexec : svc.exec k₀ c index = some k₀' := by
    rw [Service.applyAll_concat, hk₀, ← hindex] at hk₀'
    exact hk₀'
  exact ⟨hindex, k₀', hk₀', hv.exec hl hexec hs⟩

/-- A snapshot arrives: of the past, or of a point that is at least as far. -/
lemma Replays.applySnapshot (hv : Faithful svc Like) (h : Replays Like log k) (d : Annotated Like)
    (hs : svc.applySnapshot k d.commands.length (d.commands.length, d.bytes) = some k') :
    Replays Like (if d.commands.length < log.length then log else d.commands) k' := by
  split
  · rename_i hlt
    rw [hv.stale hs (hlt.trans_eq (h.lastApplied hv).symm)]
    exact h
  · rename_i hge
    obtain ⟨kd, hkd, hmake⟩ := d.spec hv
    have hlen := hkd.lastApplied hv
    rw [← hmake, ← hlen] at hs
    obtain ⟨k₀, hk₀, hl⟩ := hkd
    obtain ⟨k₁, -, hl₁⟩ := id h
    refine ⟨k₀, hk₀, hv.install hl hl₁ ?_ hs⟩
    rw [hlen, h.lastApplied hv]
    exact not_lt.1 hge

/-- A process restarts. -/
lemma replays_restore (hv : Faithful svc Like) (d : Option (Annotated Like)) :
    Replays Like ((d.map Annotated.commands).getD [])
      (svc.restoreState svc.start (d.map fun d => (d.commands.length, d.bytes))) := by
  cases d with
  | none =>
    show Replays Like [] (svc.restoreState svc.start none)
    rw [hv.fresh]
    exact replays_start hv
  | some d =>
    obtain ⟨kd, hkd, hmake⟩ := d.spec hv
    show Replays Like d.commands (svc.restoreState svc.start (some (d.commands.length, d.bytes)))
    rw [← hmake]
    obtain ⟨k₀, hk₀, hl⟩ := hkd
    exact ⟨k₀, hk₀, hv.restore hl⟩

/-- The prefix of the log that a replica has executed is as long as its position says. -/
lemma Replays.of_prefix (hv : Faithful svc Like) {p : List C} (hp : p <+: log)
    (h : Replays Like p k) : svc.lastApplied k ≤ log.length ∧
      Replays Like (log.take (svc.lastApplied k)) k := by
  rw [h.lastApplied hv]
  exact ⟨hp.length_le, List.prefix_iff_eq_take.1 hp ▸ h⟩

end Replays

/-! ### What the ideal cluster provides -/

/-- The snapshot of a server is as long as its index says. -/
def Sized (rf : Raft n C (List C)) : Prop :=
  ∀ d, rf.snapshot = some d → d.state.length = rf.lastIncludedIndex

namespace Cluster

variable {H : Raft n C (List C) → ApplyEntriesArgs n C → Prop} {s s' : Cluster n C}
  {past : List (Cluster n C)} {i : Fin n}

lemma known_nil : Known past ([] : List (LogEntry C)) := ⟨0, Or.inl rfl⟩

/-- What is committed stays so. -/
lemma Known.later {later : List (Cluster n C)} {q : List (LogEntry C)} (h : Known past q)
    (hsuf : past <:+ later) : Known later q := by
  obtain ⟨more, rfl⟩ := hsuf
  induction more with
  | nil => exact h
  | cons s more ih => exact ih.mono

/-- What is committed was in a leader's log. -/
lemma Known.led {q : List (LogEntry C)} (h : Known past q) {x : LogEntry C} (hx : x ∈ q) :
    Led past x := by
  obtain ⟨t, rfl | ⟨u, c, -, hc, hpre⟩⟩ := h
  · cases hx
  · obtain ⟨l, hl, hcl⟩ := hc.leader
    exact ⟨u, l, hl, (hpre.trans hcl).subset hx⟩

lemma Run.sized (htr : Run Raft.HoldsHidden (s :: past)) (i : Fin n) : Sized (s.raft i) := by
  intro d hd
  have hs := htr.inv.sound i
  have hlen : (coveredBy (s.raft i).snapshot).length = (s.raft i).discardCount := hs.covered.length
  rw [hd] at hlen
  rw [hs.state d hd, List.length_map, ← htr.discard i]
  exact hlen

/-- What a service has executed is the beginning of any longer snapshot it is handed. -/
lemma Run.applied_prefix (htr : Run Raft.HoldsHidden (s :: past)) {d : Snapshot C (List C)}
    {term index : ℕ} (hmem : .snapshot (some d) term index ∈ (s.nodes i).batch)
    (hle : (s.nodes i).applied.length ≤ d.state.length) : (s.nodes i).applied <+: d.state := by
  have hI : Inv s past := htr.inv
  obtain ⟨q₀, hq₀, happ, -⟩ := (hI.served i).applied
  obtain ⟨q, hq, hstate, -⟩ := (hI.served i).batch _ hmem
  rw [happ, hstate, List.length_map, List.length_map] at hle
  have hq₀' : q₀ = q.take q₀.length :=
    hq₀.eq hI.lawful (hq.take _) (by rw [List.length_take]; omega)
  rw [happ, hstate, hq₀']
  exact (List.take_prefix _ _).map _

end Cluster

/-! ### A process and its ideal -/

section Twin

variable {svc : Service C σ} {Like : svc.State → svc.State → Prop}

variable (Like) in
/-- The process and the node are the same up to snapshots, and the service of the process has
executed the commands of the node. -/
structure Twin (h : Host n svc) (node : Node n C) : Prop where
  raft : ∃ rf : Raft n C (Annotated Like), h.raft = rf.map Annotated.bytes ∧
    node.raft = rf.map Annotated.commands
  batch : ∃ batch : List (ApplyMsg C (Annotated Like)),
    h.batch = batch.map (ApplyMsg.map Annotated.bytes) ∧
    node.batch = batch.map (ApplyMsg.map Annotated.commands) ∧
    ∀ d term index, .snapshot (some d) term index ∈ batch → d.state.commands.length = index
  service : Replays Like node.applied h.service
  captured : ∀ d, h.captured = some d → d.1 ≤ node.applied.length ∧
    ∃ k, Replays Like (node.applied.take d.1) k ∧ svc.makeSnapshot k = d

variable {h h' : Host n svc} {node : Node n C}

lemma twin_init (hv : Faithful svc Like) (i : Fin n) :
    Twin Like (Host.init svc i) ((Cluster.init : Cluster n C).nodes i) where
  raft := ⟨Raft.make i ⟨none, none⟩, rfl, rfl⟩
  batch := ⟨[], rfl, rfl, fun _ _ _ h => (nomatch h)⟩
  service := replays_start hv
  captured _ h := (nomatch h)

/-- What is captured stays a prefix of what has been executed. -/
lemma Twin.captured_of_prefix (ht : Twin Like h node) {applied : List C}
    (hp : node.applied <+: applied) {d : ℕ × σ} (hd : h.captured = some d) :
    d.1 ≤ applied.length ∧ ∃ k, Replays Like (applied.take d.1) k ∧ svc.makeSnapshot k = d := by
  obtain ⟨hle, k, hk, hmake⟩ := ht.captured d hd
  obtain ⟨rest, rfl⟩ := hp
  refine ⟨hle.trans (by simp), k, ?_, hmake⟩
  rw [List.take_append_of_le_length hle]
  exact hk

/-- `makeSnapshot` captures the state. -/
lemma Twin.capture (hv : Faithful svc Like) (ht : Twin Like h node) :
    Twin Like { h with captured := some (svc.makeSnapshot h.service) } node := by
  refine ⟨ht.raft, ht.batch, ht.service, fun d hd => ?_⟩
  cases hd
  rw [svc.makeSnapshot_index, ht.service.lastApplied hv, List.take_length]
  exact ⟨le_rfl, h.service, ht.service, rfl⟩

lemma Twin.background (hv : Faithful svc Like) (ht : Twin Like h node) (b : svc.Background) :
    Twin Like { h with service := svc.background h.service b } node := by
  obtain ⟨k₀, hk₀, hl⟩ := ht.service
  exact ⟨ht.raft, ht.batch, ⟨k₀, hk₀, hv.background b hl⟩, ht.captured⟩

/-- What was captured goes to Raft. -/
lemma Twin.callSnapshot (ht : Twin Like h node) {d : ℕ × σ} (hd : h.captured = some d) :
    Twin Like { h with raft := h.raft.callSnapshot d.1 ⟨d.1, d.2, []⟩, captured := none }
      { node with raft := node.raft.callSnapshot d.1 ⟨d.1, node.applied.take d.1, []⟩ } := by
  obtain ⟨rf, hraft, hnode⟩ := ht.raft
  obtain ⟨-, k, hk, rfl⟩ := ht.captured d hd
  let data : Annotated Like := ⟨(_, _), k, hk, rfl⟩
  refine ⟨⟨rf.callSnapshot (svc.makeSnapshot k).1 ⟨(svc.makeSnapshot k).1, data, []⟩, ?_, ?_⟩,
    ht.batch, ht.service, fun _ h => (nomatch h)⟩
  · show h.raft.callSnapshot _ _ = _
    rw [hraft, ← Raft.map_callSnapshot]
    rfl
  · show node.raft.callSnapshot _ _ = _
    rw [hnode, ← Raft.map_callSnapshot]
    rfl

/-- `applyLog` collects the same messages on both sides. -/
lemma Twin.applyLog (ht : Twin Like h node) (hsized : Sized node.raft) {rf : Raft n C σ}
    {msgs : List (ApplyMsg C σ)} (hs : h.raft.applyLog = some (rf, msgs)) :
    ∃ rf' msgs', node.raft.applyLog = some (rf', msgs') ∧
      Twin Like { h with raft := rf, batch := msgs } { node with raft := rf', batch := msgs' } := by
  obtain ⟨rf₀, hraft, hnode⟩ := ht.raft
  rw [hraft, Raft.map_applyLog] at hs
  obtain ⟨⟨rf₁, msgs₁⟩, hr, heq⟩ := Option.map_eq_some_iff.1 hs
  cases heq
  refine ⟨rf₁.map Annotated.commands, msgs₁.map (ApplyMsg.map Annotated.commands), ?_,
    ⟨rf₁, rfl, rfl⟩, ⟨msgs₁, rfl, rfl, fun d term index hmem => ?_⟩, ht.service, ht.captured⟩
  · rw [hnode, Raft.map_applyLog, hr]
    rfl
  · obtain ⟨snap, cmds, lastApplied, rfl, -, hsnap, hcmds⟩ := Raft.applyLog_cases hr
    rcases List.mem_append.1 hmem with hmem | hmem
    · -- the pending snapshot
      obtain ⟨-, rfl⟩ | ⟨-, e, rfl⟩ := hsnap
      · cases hmem
      · cases hd : rf₀.snapshot with
        | none =>
          rw [hd] at hmem
          cases List.mem_singleton.1 hmem
        | some d' =>
          rw [hd] at hmem
          cases List.mem_singleton.1 hmem
          refine (hsized (d.map Annotated.commands) ?_).trans ?_
          · rw [hnode]
            exact congrArg (Option.map _) hd
          · rw [hnode]
            rfl
    · obtain ⟨-, rfl, -⟩ | ⟨-, hcmds, -⟩ := hcmds
      · cases hmem
      · obtain ⟨j, hj⟩ := List.mem_iff_getElem?.1 hmem
        obtain ⟨e, -, heq⟩ := (Raft.commandMsgs_spec hcmds).2 j _ hj
        cases heq

/-- The service has got further, with `joint` still to come. -/
lemma Twin.advance (ht : Twin Like h node) (node' : Node n C) {k : svc.State}
    {joint : List (ApplyMsg C (Annotated Like))} (hraft : node'.raft = node.raft)
    (hbatch : node'.batch = joint.map (ApplyMsg.map Annotated.commands))
    (hindex : ∀ d term index, .snapshot (some d) term index ∈ joint →
      d.state.commands.length = index)
    (hk : Replays Like node'.applied k) (hp : node.applied <+: node'.applied) :
    Twin Like { h with batch := joint.map (ApplyMsg.map Annotated.bytes), service := k } node' where
  raft := by
    rw [hraft]
    exact ht.raft
  batch := ⟨joint, rfl, hbatch, hindex⟩
  service := hk
  captured _ hd := ht.captured_of_prefix hp hd

/-- The service takes a message. -/
lemma Twin.take (hv : Faithful svc Like) (ht : Twin Like h node)
    (hcomp : ∀ d term index, .snapshot (some d) term index ∈ node.batch →
      node.applied.length ≤ d.state.length → node.applied <+: d.state)
    {msg : ApplyMsg C σ} {batch : List (ApplyMsg C σ)} (hb : h.batch = msg :: batch)
    {k : svc.State} (hs : svc.applier h.service msg = some k) :
    ∃ msg' batch', node.batch = msg' :: batch' ∧
      Twin Like { h with batch := batch, service := k } ({ node with batch := batch' }.take msg') := by
  obtain ⟨joint, hbatch, hnode, hindex⟩ := ht.batch
  rw [hb] at hbatch
  cases joint with
  | nil => cases hbatch
  | cons m joint =>
    cases hbatch
    refine ⟨_, _, hnode, ?_⟩
    have hrest : ∀ d term index, .snapshot (some d) term index ∈ joint →
        d.state.commands.length = index :=
      fun d term index hmem => hindex d term index (List.mem_cons_of_mem _ hmem)
    cases m with
    | command c index =>
      obtain ⟨hnext, hk⟩ := ht.service.exec hv hs
      have happ : (({ node with batch := joint.map (ApplyMsg.map Annotated.commands) } :
          Node n C).take (.command c index)).applied = node.applied ++ [c] := if_pos hnext
      refine ht.advance (Node.take _ (.command c index)) rfl rfl hrest ?_ ?_
      · rw [happ]
        exact hk
      · rw [happ]
        exact List.prefix_append _ _
    | snapshot data term index =>
      cases data with
      | none => cases hs
      | some d =>
        obtain rfl := hindex d term index List.mem_cons_self
        have hd : d.index = d.state.commands.length :=
          svc.applySnapshot_isSome.1 (Option.isSome_of_eq_some hs)
        have happ : (({ node with batch := joint.map (ApplyMsg.map Annotated.commands) } :
            Node n C).take (.snapshot (some (d.map Annotated.commands)) term
              d.state.commands.length)).applied =
            if d.state.commands.length < node.applied.length then node.applied
            else d.state.commands := rfl
        change svc.applySnapshot h.service d.state.commands.length (d.index, d.state.bytes) = some k
          at hs
        rw [hd] at hs
        refine ht.advance (Node.take _ (.snapshot (some (d.map Annotated.commands)) term
          d.state.commands.length)) rfl rfl hrest ?_ ?_
        · rw [happ]
          exact ht.service.applySnapshot hv d.state hs
        · rw [happ]
          split
          · exact List.prefix_refl _
          · rename_i hge
            refine hcomp (d.map Annotated.commands) term d.state.commands.length ?_ (not_lt.1 hge)
            rw [hnode]
            exact List.mem_cons_self

/-- The process and the node restart. -/
lemma Twin.restart (hv : Faithful svc Like) (ht : Twin Like h node) (hi : h.Inv)
    (hsized : Sized node.raft) (hstable : node.raft.persister.snapshot = node.raft.snapshot)
    (hs : h.step .crash = some h') : Twin Like h' node.restart := by
  cases hs
  obtain ⟨rf, hraft, hnode⟩ := ht.raft
  refine ⟨⟨Raft.make rf.me rf.persister, ?_, ?_⟩, ⟨[], rfl, rfl, fun _ _ _ h => (nomatch h)⟩, ?_,
    fun _ h => (nomatch h)⟩
  · rw [hraft]
    exact Raft.map_make _ _ _
  · show Raft.make node.raft.me node.raft.persister = _
    rw [hnode]
    exact Raft.map_make _ _ _
  · -- the index in the bytes is the number of commands
    have hlen : ∀ d, rf.persister.snapshot = some d → d.index = d.state.commands.length := by
      intro d hd
      have hsnap : node.raft.snapshot = some (d.map Annotated.commands) := by
        rw [← hstable, hnode]
        exact congrArg (Option.map _) hd
      have hindex := hi.index
      rw [hraft] at hindex
      have hsize := hsized _ hsnap
      rw [hnode] at hsnap hsize
      obtain ⟨d', hd', heq⟩ := Option.map_eq_some_iff.1 hsnap
      change (((rf.snapshot.map (Snapshot.map Annotated.bytes)).map Snapshot.index).getD 0 =
        rf.lastIncludedIndex) at hindex
      rw [hd'] at hindex
      have hidx : (d'.map Annotated.commands).index = (d.map Annotated.commands).index :=
        congrArg Snapshot.index heq
      exact hidx.symm.trans (hindex.trans hsize.symm)
    have hrep := replays_restore hv (rf.persister.snapshot.map Snapshot.state)
    rw [hraft]
    show Replays Like ((node.raft.persister.snapshot.map Snapshot.state).getD [])
      (svc.restoreState svc.start ((rf.persister.snapshot.map (Snapshot.map Annotated.bytes)).map
        fun d => (d.index, d.state)))
    rw [hnode]
    show Replays Like
      (((rf.persister.snapshot.map (Snapshot.map Annotated.commands)).map Snapshot.state).getD []) _
    cases hd : rf.persister.snapshot with
    | none =>
      rw [hd] at hrep
      exact hrep
    | some d =>
      rw [hd] at hrep
      show Replays Like d.state.commands
        (svc.restoreState svc.start (some (d.index, d.state.bytes)))
      rw [hlen d hd]
      exact hrep

end Twin

/-! ### All processes and the ideal cluster -/

namespace Replicas

variable {svc : Service C σ} {Like : svc.State → svc.State → Prop} {t t' : Replicas n svc}
  {s s' : Cluster n C} {i : Fin n}

variable (Like) in
/-- The cluster `s` is what the processes `t` show of themselves. -/
structure Shows (t : Replicas n svc) (s : Cluster n C) : Prop where
  hosts : ∀ i, Twin Like (t.hosts i) (s.nodes i)
  epochs : ∀ i, (s.nodes i).epoch = t.epochs i
  net : ∃ net : List (Parcel n C (Annotated Like)), t.net = net.map (Parcel.map Annotated.bytes) ∧
    s.mesh.net = net.map (Parcel.map Annotated.commands)

lemma shows_init (hv : Faithful svc Like) : Shows Like (init n svc) (Cluster.init : Cluster n C) :=
  ⟨twin_init hv, fun _ => rfl, [], rfl, rfl⟩

/-- The joint mesh. -/
lemma Shows.mesh (h : Shows Like t s) : ∃ m : Mesh n C (Annotated Like),
    t.mesh = m.map Annotated.bytes ∧ s.mesh = m.map Annotated.commands := by
  choose rafts hraft hnode using fun i => (h.hosts i).raft
  obtain ⟨net, hnet, hnet'⟩ := h.net
  refine ⟨⟨rafts, t.epochs, net⟩, ?_, ?_⟩
  · unfold Replicas.mesh Mesh.map
    rw [hnet]
    exact congrArg (fun r => Mesh.mk r t.epochs _) (funext hraft)
  · have hepochs : s.mesh.epochs = t.epochs := funext h.epochs
    have hrafts : s.mesh.rafts = fun i => (rafts i).map Annotated.commands := funext hnode
    show Mesh.mk s.mesh.rafts s.mesh.epochs s.mesh.net = _
    rw [hepochs, hrafts, hnet']
    rfl

/-- What the cluster does when something happens to the processes: nothing, or one step, in which
`Start` is called if it is by the processes. -/
def Matches (e : ReplicasEvent n svc) (s s' : Cluster n C) : Prop :=
  s' = s ∨ ∃ e', s.Heeds Raft.HoldsHidden e' ∧ s.step e' = some s' ∧
    ∀ i command, e' = .start i command → e = .mesh (.start i command)

/-- A step of the mesh. -/
lemma Shows.mesh_step (h : Shows Like t s) {e : MeshEvent n C}
    (hok : t.mesh.Heeds Raft.HoldsHidden e) {m : Mesh n C σ} (hs : t.mesh.step e = some m) :
    ∃ s', Shows Like (t.withMesh m) s' ∧ Matches (.mesh e : ReplicasEvent n svc) s s' := by
  obtain ⟨joint, hbytes, hcommands⟩ := h.mesh
  rw [hbytes, Mesh.map_step] at hs
  obtain ⟨joint', hj, rfl⟩ := Option.map_eq_some_iff.1 hs
  refine ⟨s.withMesh (joint'.map Annotated.commands), ⟨fun i => ?_, fun _ => rfl, joint'.net, rfl, ?_⟩,
    Or.inr ⟨e.toEvent, ?_, ?_, ?_⟩⟩
  · exact ⟨⟨joint'.rafts i, rfl, rfl⟩, (h.hosts i).batch, (h.hosts i).service, (h.hosts i).captured⟩
  · rw [Cluster.mesh_withMesh]
    rfl
  · rw [hbytes] at hok
    have hjoint : joint.Heeds Raft.HoldsHidden e := Mesh.heeds_map.1 hok
    have hmesh : s.mesh.Heeds Raft.HoldsHidden e := by
      rw [hcommands]
      exact Mesh.heeds_map.2 hjoint
    have := Cluster.heeds_withMesh (s := s) hmesh
    rwa [Cluster.withMesh_mesh] at this
  · rw [Cluster.step_toEvent, hcommands, Mesh.map_step, hj]
    rfl
  · intro i command he
    cases e <;> cases he
    rfl

/-- One process and its node move. -/
lemma Shows.set (h : Shows Like t s) {host : Host n svc} {node : Node n C}
    (htwin : Twin Like host node) (hhosts : t'.hosts = Function.update t.hosts i host)
    (hepochs : t'.epochs = Function.update t.epochs i node.epoch) (hnet : t'.net = t.net) :
    Shows Like t' (s.setNode i node) := by
  refine ⟨fun j => ?_, fun j => ?_, ?_⟩
  · rw [hhosts]
    show Twin Like _ (Function.update s.nodes i node j)
    by_cases hj : j = i
    · subst hj
      rwa [Function.update_self, Function.update_self]
    · rw [Function.update_of_ne hj, Function.update_of_ne hj]
      exact h.hosts j
  · rw [hepochs]
    show (Function.update s.nodes i node j).epoch = _
    by_cases hj : j = i
    · subst hj
      rw [Function.update_self, Function.update_self]
    · rw [Function.update_of_ne hj, Function.update_of_ne hj]
      exact h.epochs j
  · rw [hnet]
    exact h.net

/-- One process moves without a crash, and its node with it. -/
lemma Shows.setHost (h : Shows Like t s) {host : Host n svc} {node : Node n C}
    (htwin : Twin Like host node) (hepoch : node.epoch = (s.nodes i).epoch) :
    Shows Like (t.setHost i host) (s.setNode i node) := by
  refine h.set htwin rfl ?_ rfl
  rw [hepoch, h.epochs i, Function.update_eq_self]
  rfl

/-- One process moves, and its node does not. -/
lemma Shows.setHost_alone (h : Shows Like t s) {host : Host n svc}
    (htwin : Twin Like host (s.nodes i)) : Shows Like (t.setHost i host) s := by
  have := h.setHost htwin rfl
  rwa [Cluster.setNode, Function.update_eq_self] at this

/-- **Every step of the processes is a step of the cluster, or none.** -/
theorem Shows.step (hv : Faithful svc Like) {past : List (Cluster n C)}
    (htr : Cluster.Run Raft.HoldsHidden (s :: past)) (h : Shows Like t s) (hi : t.Inv)
    {e : ReplicasEvent n svc} (hok : t.Heeds Raft.HoldsHidden e) (hs : t.step e = some t') :
    ∃ s', Shows Like t' s' ∧ Matches e s s' := by
  cases e with
  | mesh e =>
    obtain ⟨m, hm, rfl⟩ := Option.map_eq_some_iff.1 hs
    exact h.mesh_step hok hm
  | host i e =>
    obtain ⟨hraft, host, hhost, ht⟩ := step_host hs
    have htwin := h.hosts i
    have hheeds : ∀ e' : Event n C, (∀ k, e' ≠ .deliver k) → s.Heeds Raft.HoldsHidden e' :=
      fun e' he' k _ _ he => absurd he (he' k)
    cases e with
    | raft x => exact absurd rfl (hraft x)
    | applyLog =>
      obtain ⟨hc, -⟩ | ⟨-, rfl⟩ := ht
      · cases hc
      dsimp only [Host.step] at hhost
      split at hhost
      · rename_i hb
        obtain ⟨⟨rf, msgs⟩, hr, rfl⟩ := Option.map_eq_some_iff.1 hhost
        obtain ⟨rf', msgs', hr', htwin'⟩ := htwin.applyLog (htr.sized i) hr
        refine ⟨_, h.setHost htwin' rfl, Or.inr ⟨.applyLog i, hheeds _ (by rintro _ ⟨⟩), ?_,
          by rintro _ _ ⟨⟩⟩⟩
        have hb' : (s.nodes i).batch.isEmpty := by
          obtain ⟨joint, hbytes, hcommands, -⟩ := htwin.batch
          rw [hbytes, List.isEmpty_map] at hb
          rw [hcommands, List.isEmpty_map]
          exact hb
        dsimp only [Cluster.step]
        rw [if_pos hb', show (s.raft i).applyLog = some (rf', msgs') from hr']
        rfl
      · cases hhost
    | applyMsg =>
      obtain ⟨hc, -⟩ | ⟨-, rfl⟩ := ht
      · cases hc
      dsimp only [Host.step] at hhost
      split at hhost
      · cases hhost
      · rename_i msg batch hb
        obtain ⟨k, hk, rfl⟩ := Option.map_eq_some_iff.1 hhost
        obtain ⟨msg', batch', hb', htwin'⟩ := htwin.take hv
          (fun d term index hmem hle => htr.applied_prefix hmem hle) hb hk
        refine ⟨_, h.setHost htwin' (Node.take_epoch _ _), Or.inr ⟨.applyMsg i,
          hheeds _ (by rintro _ ⟨⟩), ?_, by rintro _ _ ⟨⟩⟩⟩
        dsimp only [Cluster.step]
        rw [hb']
    | capture =>
      obtain ⟨hc, -⟩ | ⟨-, rfl⟩ := ht
      · cases hc
      cases hhost
      exact ⟨s, h.setHost_alone (htwin.capture hv), Or.inl rfl⟩
    | snapshot =>
      obtain ⟨hc, -⟩ | ⟨-, rfl⟩ := ht
      · cases hc
      obtain ⟨d, hd, rfl⟩ := Option.map_eq_some_iff.1 hhost
      have htwin' := htwin.callSnapshot hd
      by_cases hpos : 1 ≤ d.1
      · refine ⟨_, h.setHost htwin' rfl, Or.inr ⟨.snapshot i d.1, hheeds _ (by rintro _ ⟨⟩), ?_,
          by rintro _ _ ⟨⟩⟩⟩
        exact if_pos ⟨hpos, (htwin.captured d hd).1⟩
      · -- a snapshot of nothing is ignored
        have hzero : (s.nodes i).raft.callSnapshot d.1 ⟨d.1, (s.nodes i).applied.take d.1, []⟩ =
            (s.nodes i).raft := if_pos (by omega)
        rw [hzero] at htwin'
        exact ⟨s, h.setHost_alone htwin', Or.inl rfl⟩
    | background b =>
      obtain ⟨hc, -⟩ | ⟨-, rfl⟩ := ht
      · cases hc
      cases hhost
      exact ⟨s, h.setHost_alone (htwin.background hv b), Or.inl rfl⟩
    | crash =>
      obtain ⟨-, rfl⟩ | ⟨hc, -⟩ := ht
      · have htwin' := htwin.restart hv (hi.hosts i) (htr.sized i)
          (htr.shapely.1 i).stableSnapshot hhost
        refine ⟨_, h.set htwin' rfl ?_ rfl, Or.inr ⟨.crash i, hheeds _ (by rintro _ ⟨⟩), rfl,
          by rintro _ _ ⟨⟩⟩⟩
        show Function.update t.epochs i (t.epochs i + 1) =
          Function.update t.epochs i ((s.nodes i).epoch + 1)
        rw [h.epochs i]
      · exact absurd rfl hc

/-! ### One log -/

/-- In the run `tr`, the command was handed to `Start` at a leader. -/
def Started (tr : List (Replicas n svc)) (command : C) : Prop :=
  ∃ t t' past i, t' :: t :: past <:+ tr ∧ (t.hosts i).raft.identity = .leader ∧
    t.step (.mesh (.start i command)) = some t'

lemma Started.mono {tr : List (Replicas n svc)} {command : C} (h : Started tr command) :
    Started (t :: tr) command := by
  obtain ⟨t₁, t₂, past, i, hsuf, h⟩ := h
  exact ⟨t₁, t₂, past, i, hsuf.trans (List.suffix_cons _ _), h⟩

variable (Like) in
/-- The run `ctr` of the cluster accompanies the run `tr` of the processes. -/
structure Accompanies (tr : List (Replicas n svc)) (ctr : List (Cluster n C)) : Prop where
  run : Cluster.Run Raft.HoldsHidden ctr
  shows : ∀ t ∈ tr, ∃ s ∈ ctr, Shows Like t s
  started : ∀ x, Cluster.Led ctr x → Started tr x.command

/-- One step, seen from the run of the cluster: what was committed stays so, and an entry that is new
in a leader's log was just handed to `Start`. -/
lemma Shows.advance (hv : Faithful svc Like) {cpast : List (Cluster n C)}
    (hrun : Cluster.Run Raft.HoldsHidden (s :: cpast)) (h : Shows Like t s) (hi : t.Inv)
    {e : ReplicasEvent n svc} (hok : t.Heeds Raft.HoldsHidden e) (hs : t.step e = some t') :
    ∃ s' later, Shows Like t' s' ∧ Cluster.Run Raft.HoldsHidden (s' :: later) ∧
      s :: cpast <:+ s' :: later ∧
      ∀ x, Cluster.Led (s' :: later) x → Cluster.Led (s :: cpast) x ∨
        ∃ i, e = .mesh (.start i x.command) ∧ (t.hosts i).raft.identity = .leader := by
  obtain ⟨s', hshows', hmatch⟩ := h.step hv hrun hi hok hs
  obtain rfl | ⟨e', hok', hs', hstart⟩ := hmatch
  · exact ⟨s', cpast, hshows', hrun, List.suffix_refl _, fun x hx => Or.inl hx⟩
  · refine ⟨s', s :: cpast, hshows', .step e' hrun hok' hs', List.suffix_cons _ _, fun x hx => ?_⟩
    obtain hx | ⟨i, he', hl⟩ := hx.cases hrun hs'
    · exact Or.inl hx
    · obtain ⟨rf, hraft, hnode⟩ := (h.hosts i).raft
      rw [show (s.raft i).identity = rf.identity from congrArg Raft.identity hnode] at hl
      exact Or.inr ⟨i, hstart i x.command he', (congrArg Raft.identity hraft).trans hl⟩

/-- **Every run of the processes is accompanied by a run of the cluster.** -/
theorem exists_accompanies (hv : Faithful svc Like) {past : List (Replicas n svc)}
    (htr : Trace step (Heeds Raft.HoldsHidden) (init n svc) (t :: past)) :
    ∃ s cpast, Shows Like t s ∧ Accompanies Like (t :: past) (s :: cpast) := by
  refine Trace.invariant (P := fun t past => ∃ s cpast, Shows Like t s ∧
    Accompanies Like (t :: past) (s :: cpast)) ?_ ?_ htr
  · refine ⟨Cluster.init, [], shows_init hv, .init, fun t ht => ?_, fun x hx => ?_⟩
    · rw [List.mem_singleton.1 ht]
      exact ⟨_, List.mem_singleton_self _, shows_init hv⟩
    · obtain ⟨_, _, hl, -⟩ := hx
      exact absurd hl Cluster.not_leaderLog_init
  · rintro t past e t' htr ⟨s, cpast, hshows, hacc⟩ hok hs
    obtain ⟨s', later, hshows', hrun', hsuf, hled⟩ :=
      hshows.advance hv hacc.run (reachable_inv ⟨past, htr⟩) hok hs
    refine ⟨s', later, hshows', hrun', fun t₁ ht₁ => ?_, fun x hx => ?_⟩
    · rcases List.mem_cons.1 ht₁ with rfl | ht₁
      · exact ⟨s', List.mem_cons_self, hshows'⟩
      · obtain ⟨s₁, hs₁, h₁⟩ := hacc.shows t₁ ht₁
        exact ⟨s₁, hsuf.subset hs₁, h₁⟩
    · obtain hx | ⟨i, rfl, hl⟩ := hled x hx
      · exact (hacc.started x hx).mono
      · exact ⟨t, t', past, i, List.suffix_refl _, hl, hs⟩

/-- Of finitely many logs any two of which are comparable, one goes furthest. -/
lemma exists_longest {A B : Type} {K : List A → Prop} (hnil : K [])
    (hcomp : ∀ q q', K q → K q' → q <+: q' ∨ q' <+: q) (R : B → List A → Prop) (l : List B)
    (h : ∀ b ∈ l, ∃ q, K q ∧ R b q) : ∃ q, K q ∧ ∀ b ∈ l, ∃ p, p <+: q ∧ R b p := by
  induction l with
  | nil => exact ⟨[], hnil, fun b hb => (nomatch hb)⟩
  | cons b l ih =>
    obtain ⟨q, hq, hall⟩ := ih fun b hb => h b (List.mem_cons_of_mem _ hb)
    obtain ⟨q', hq', hb⟩ := h b List.mem_cons_self
    have hlift : ∀ r, q <+: r → q' <+: r → ∀ c ∈ b :: l, ∃ p, p <+: r ∧ R c p := by
      intro r hqr hqr' c hc
      rcases List.mem_cons.1 hc with hc | hc
      · exact ⟨q', hqr', hc ▸ hb⟩
      · obtain ⟨p, hp, hR⟩ := hall c hc
        exact ⟨p, hp.trans hqr, hR⟩
    rcases hcomp q q' hq hq' with hqq | hqq
    · exact ⟨q', hq', hlift q' hqq (List.prefix_refl _)⟩
    · exact ⟨q, hq, hlift q (List.prefix_refl _) hqq⟩

/-- What a service has executed at any time is committed. -/
lemma Accompanies.replays {tr : List (Replicas n svc)} {ctr : List (Cluster n C)}
    (hacc : Accompanies Like tr ctr) (ht : t ∈ tr) (i : Fin n) :
    ∃ q, Cluster.Known ctr q ∧ Replays Like (q.map LogEntry.command) (t.hosts i).service := by
  obtain ⟨s, hs, hshows⟩ := hacc.shows t ht
  obtain ⟨later, past, rfl⟩ := List.append_of_mem hs
  have hrun : Cluster.Run Raft.HoldsHidden (s :: past) := hacc.run.suffix (List.suffix_append _ _)
  obtain ⟨q, hq, happ, -⟩ := (hrun.inv.served i).applied
  exact ⟨q, hq.later (List.suffix_append _ _), happ ▸ (hshows.hosts i).service⟩

/-- **All replicas execute one log.**  In every run there is a log such that every service, at any
time, is in a state that executing a prefix of it leads to, and every command of which was handed to
`Start` at a leader. -/
theorem one_log (hv : Faithful svc Like) {past : List (Replicas n svc)}
    (htr : Trace step (Heeds Raft.HoldsHidden) (init n svc) (t :: past)) :
    ∃ log : List C, (∀ command ∈ log, Started (t :: past) command) ∧
      ∀ t₁ ∈ t :: past, ∀ i, ∃ p, p <+: log ∧ Replays Like p (t₁.hosts i).service := by
  obtain ⟨s, cpast, -, hacc⟩ := exists_accompanies hv htr
  have hL := hacc.run.inv.lawful
  obtain ⟨q, hq, hall⟩ := exists_longest (K := Cluster.Known (s :: cpast)) Cluster.known_nil
    (fun _ _ ⟨_, h⟩ ⟨_, h'⟩ => hL.safe_comparable h h')
    (fun (b : Replicas n svc × Fin n) q => Replays Like (q.map LogEntry.command) (b.1.hosts b.2).service)
    ((t :: past).product (List.finRange n)) fun b hb => hacc.replays (List.mem_product.1 hb).1 b.2
  refine ⟨q.map LogEntry.command, fun command hc => ?_, fun t₁ ht₁ i => ?_⟩
  · obtain ⟨x, hx, rfl⟩ := List.mem_map.1 hc
    exact hacc.started x (hq.led hx)
  · obtain ⟨p, hp, hrep⟩ := hall (t₁, i) (List.mem_product.2 ⟨ht₁, List.mem_finRange i⟩)
    exact ⟨p.map LogEntry.command, hp.map _, hrep⟩

/-- **The replicas of kvraft and of shardkv execute one log.**  For every run, in which processes crash
and restart, take snapshots and are sent those of others, there is a log of commands that were handed
to `Start` at a leader, such that every replica is at all times in the state of one that has executed
the first `LastApplied` commands of it, up to what `tryGC` has taken out of `GCList`. -/
theorem replicas_execute_one_log (n : ℕ) :
    (∀ (t : Replicas n kvraft) (past : List (Replicas n kvraft)),
      Trace step (Heeds Raft.HoldsHidden) (init n kvraft) (t :: past) → ∃ log : List KvRaft.Op,
        (∀ op ∈ log, Started (t :: past) op) ∧ ∀ t₁ ∈ t :: past, ∀ i,
          (t₁.hosts i).service.lastApplied ≤ log.length ∧
          kvraft.applyAll (log.take (t₁.hosts i).service.lastApplied) =
            some (t₁.hosts i).service) ∧
    ∀ (gid : Ctrler.Gid) (t : Replicas n (shardkv gid)) (past : List (Replicas n (shardkv gid))),
      Trace step (Heeds Raft.HoldsHidden) (init n (shardkv gid)) (t :: past) →
      ∃ log : List ShardKv.Command,
        (∀ command ∈ log, Started (t :: past) command) ∧ ∀ t₁ ∈ t :: past, ∀ i,
          (t₁.hosts i).service.lastApplied ≤ log.length ∧ ∃ kv₀ : ShardKv.ShardKV,
          (shardkv gid).applyAll (log.take (t₁.hosts i).service.lastApplied) = some kv₀ ∧
          ∃ l ⊆ kv₀.gcList, (t₁.hosts i).service = kv₀.withGC l := by
  constructor
  · intro t past htr
    obtain ⟨log, hstarted, hall⟩ := one_log faithful_kvraft htr
    refine ⟨log, hstarted, fun t₁ ht₁ i => ?_⟩
    obtain ⟨p, hp, hrep⟩ := hall t₁ ht₁ i
    obtain ⟨hle, kv₀, hkv₀, heq⟩ := hrep.of_prefix faithful_kvraft hp
    exact ⟨hle, heq ▸ hkv₀⟩
  · intro gid t past htr
    obtain ⟨log, hstarted, hall⟩ := one_log (faithful_shardkv gid) htr
    refine ⟨log, hstarted, fun t₁ ht₁ i => ?_⟩
    obtain ⟨p, hp, hrep⟩ := hall t₁ ht₁ i
    obtain ⟨hle, kv₀, hkv₀, -, hgc⟩ := hrep.of_prefix (faithful_shardkv gid) hp
    exact ⟨hle, kv₀, hkv₀, hgc⟩

/-- Server `2` gets its state from the snapshot that server `0` has made. -/
theorem replicas_execute_one_log_catchUp : ∃ (t : Replicas 3 kvraft) (log : List KvRaft.Op),
    Reachable step (Heeds Raft.HoldsHidden) (init 3 kvraft) t ∧
    (t.hosts 0).service.lastApplied = 1 ∧ (t.hosts 2).service.lastApplied = 1 ∧ log ≠ [] ∧
    kvraft.applyAll (log.take 1) = some (t.hosts 2).service := by
  have hrun : ((run (guarded step (Heeds Raft.HoldsHidden)) (init 3 kvraft)
      (catchUp default ++ [.host 2 .applyMsg])).map fun t =>
        decide (kvraft.lastApplied (t.hosts 0).service = 1 ∧
          kvraft.lastApplied (t.hosts 2).service = 1)) = some true := by
    decide +kernel
  obtain ⟨t, ht, hd⟩ := Option.map_eq_some_iff.1 hrun
  obtain ⟨h₀, h₂⟩ := of_decide_eq_true hd
  change (t.hosts 0).service.lastApplied = 1 at h₀
  change (t.hosts 2).service.lastApplied = 1 at h₂
  obtain ⟨past, htr⟩ := Reachable.init.run_guarded ht
  obtain ⟨log, -, hall⟩ := (replicas_execute_one_log 3).1 t past htr
  obtain ⟨hle, heq⟩ := hall t List.mem_cons_self 2
  rw [h₂] at hle heq
  exact ⟨t, log, ⟨past, htr⟩, h₀, h₂, List.ne_nil_of_length_pos hle, heq⟩

end Replicas

end RaftLabs
