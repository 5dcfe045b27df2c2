import RaftLabs.Agreement

/-!
# What the services may rely on

The results of `Agreement` in the form in which a deployment of a service uses them.  `Upholds` says
that a log is committed by the Raft servers of the processes, and that everything their leaders have
taken was handed to `Start`; it is kept by every step, the log can be extended by the next command
that a service is given, and each service has executed a prefix of such an extension.  `Made` says
where the bytes of snapshots come from: whichever way they have gone, some service has written them.
-/

set_option linter.unusedSectionVars false

namespace RaftLabs

open Lib

variable {n : ℕ} {C σ : Type} [Inhabited C]

/-- What `Start` returns. -/
lemma Raft.start_result {rf rf' : Raft n C σ} {command : C} {res : Option (ℕ × ℕ)}
    {calls : List (Fin n × Rpc n C σ)} (h : rf.start command = some (rf', res, calls)) :
    (rf.identity ≠ .leader ∧ res = none) ∨
      (rf.identity = .leader ∧ ∃ index, res = some (index, rf.currentTerm)) := by
  unfold start at h
  split at h
  · rename_i hl
    obtain ⟨calls', -, h⟩ := Option.map_eq_some_iff.1 h
    cases h
    exact Or.inr ⟨hl, _, rfl⟩
  · rename_i hl
    cases h
    exact Or.inl ⟨hl, rfl⟩

namespace Replicas

variable {svc : Service C σ}
  {Like : svc.State → svc.State → Prop} {t t' : Replicas n svc} {log started : List C} {i : Fin n}

/-! ### One log -/

variable (Like) in
/-- **A log that Raft upholds**: it is committed in the run of the cluster that accompanies the
processes, and what is in the log of any leader of that run is among the commands `started`. -/
def Upholds (t : Replicas n svc) (log started : List C) : Prop :=
  t.Inv ∧ ∃ s past, Cluster.Run Raft.HoldsHidden (s :: past) ∧ Shows Like t s ∧
    (∃ q, Cluster.Known (s :: past) q ∧ log = q.map LogEntry.command) ∧
    ∀ x, Cluster.Led (s :: past) x → x.command ∈ started

lemma upholds_init (hv : Faithful svc Like) : Upholds Like (init n svc) [] [] := by
  refine ⟨inv_init, Cluster.init, [], .init, shows_init hv, ⟨[], Cluster.known_nil, rfl⟩,
    fun x hx => ?_⟩
  obtain ⟨_, _, hl, -⟩ := hx
  exact absurd hl Cluster.not_leaderLog_init

/-- More commands may have been handed to `Start`. -/
lemma Upholds.mono (h : Upholds Like t log started) {started' : List C}
    (hsub : ∀ c ∈ started, c ∈ started') : Upholds Like t log started' := by
  obtain ⟨hi, s, past, hrun, hshows, hlog, hled⟩ := h
  exact ⟨hi, s, past, hrun, hshows, hlog, fun x hx => hsub _ (hled x hx)⟩

/-- **One step.**  What is handed to `Start` at a leader has to be among the commands. -/
theorem Upholds.step (hv : Faithful svc Like) (h : Upholds Like t log started)
    {e : ReplicasEvent n svc} (hok : t.Heeds Raft.HoldsHidden e) (hs : t.step e = some t')
    (hstart : ∀ i c, e = .mesh (.start i c) → (t.hosts i).raft.identity = .leader → c ∈ started) :
    Upholds Like t' log started := by
  obtain ⟨hi, s, past, hrun, hshows, ⟨q, hq, hlog⟩, hled⟩ := h
  obtain ⟨s', later, hshows', hrun', hsuf, hnew⟩ := hshows.advance hv hrun hi hok hs
  refine ⟨hi.step hs, s', later, hrun', hshows', ⟨q, hq.later hsuf, hlog⟩, fun x hx => ?_⟩
  obtain hx | ⟨i, he, hl⟩ := hnew x hx
  · exact hled x hx
  · exact hstart i _ he hl

/-- A committed log goes on where the upheld one ends, or is a beginning of it. -/
lemma upholds_or_prefix {s : Cluster n C} {past : List (Cluster n C)} {q q' : List (LogEntry C)}
    (hrun : Cluster.Run Raft.HoldsHidden (s :: past)) (hq : Cluster.Known (s :: past) q)
    (hq' : Cluster.Known (s :: past) q') :
    q.map LogEntry.command <+: q'.map LogEntry.command ∨
      q'.map LogEntry.command <+: q.map LogEntry.command := by
  obtain ⟨_, hsafe⟩ := hq
  obtain ⟨_, hsafe'⟩ := hq'
  rcases hrun.inv.lawful.safe_comparable hsafe hsafe' with hp | hp
  · exact Or.inl (hp.map _)
  · exact Or.inr (hp.map _)

/-- **What a service has executed** is a prefix of the log, or of an extension by commands that were
handed to `Start`. -/
theorem Upholds.exists_replays (h : Upholds Like t log started) (i : Fin n) :
    ∃ more p, (∀ c ∈ more, c ∈ started) ∧ Upholds Like t (log ++ more) started ∧
      p <+: log ++ more ∧ Replays Like p (t.hosts i).service := by
  obtain ⟨hi, s, past, hrun, hshows, ⟨q, hq, rfl⟩, hled⟩ := h
  obtain ⟨q', hq', happ, -⟩ := (hrun.inv.served i).applied
  have hrep : Replays Like (q'.map LogEntry.command) (t.hosts i).service :=
    happ ▸ (hshows.hosts i).service
  rcases upholds_or_prefix hrun hq hq' with ⟨more, hmore⟩ | hp
  · -- the service is ahead of the log
    have hall : ∀ c ∈ q'.map LogEntry.command, c ∈ started := by
      intro c hc
      obtain ⟨x, hx, rfl⟩ := List.mem_map.1 hc
      exact hled x (hq'.led hx)
    refine ⟨more, q'.map LogEntry.command, fun c hc => hall c ?_,
      ⟨hi, s, past, hrun, hshows, ⟨q', hq', hmore⟩, hled⟩, ?_, hrep⟩
    · rw [← hmore]
      exact List.mem_append_right _ hc
    · rw [hmore]
  · refine ⟨[], _, fun c hc => (nomatch hc), ?_, ?_, hrep⟩
    · rw [List.append_nil]
      exact ⟨hi, s, past, hrun, hshows, ⟨q, hq, rfl⟩, hled⟩
    · rw [List.append_nil]
      exact hp

/-- **The next command of a service** stands in the log at its position, or extends the log. -/
theorem Upholds.command (h : Upholds Like t log started) {c : C} {index : ℕ}
    (hmem : .command c index ∈ (t.hosts i).batch) (hle : index ≤ log.length + 1) :
    log[index - 1]? = some c ∨
      (index = log.length + 1 ∧ c ∈ started ∧ Upholds Like t (log ++ [c]) started) := by
  obtain ⟨hi, s, past, hrun, hshows, ⟨q, hq, rfl⟩, hled⟩ := h
  -- the node of the cluster has the same message
  have hnode : .command c index ∈ (s.nodes i).batch := by
    obtain ⟨joint, hbytes, hcommands, -⟩ := (hshows.hosts i).batch
    rw [hbytes] at hmem
    obtain ⟨msg, hmsg, heq⟩ := List.mem_map.1 hmem
    rw [hcommands]
    cases msg with
    | command c' index' =>
      cases heq
      exact List.mem_map.2 ⟨_, hmsg, rfl⟩
    | snapshot data term index' => cases heq
  obtain ⟨⟨hpos, q', e, hq', he, hcmd⟩, -⟩ := (hrun.inv.served i).batch _ hnode
  dsimp only at hpos he hcmd
  have hget : (q'.map LogEntry.command)[index - 1]? = some c := by
    rw [List.getElem?_map, he, ← hcmd]
    rfl
  have hlt := (List.getElem?_eq_some_iff.1 hget).1
  rcases upholds_or_prefix hrun hq hq' with hp | hp
  · rcases Nat.lt_or_ge (index - 1) (q.map LogEntry.command).length with hin | hout
    · obtain ⟨rest, hrest⟩ := hp
      rw [← hrest, List.getElem?_append_left hin] at hget
      exact Or.inl hget
    · have hindex : index = (q.map LogEntry.command).length + 1 := by omega
      refine Or.inr ⟨hindex, ?_, hi, s, past, hrun, hshows, ⟨q'.take index, hq'.take _, ?_⟩, hled⟩
      · rw [← hcmd]
        exact hled e (hq'.led (List.mem_of_getElem? he))
      · rw [List.map_take, List.prefix_iff_eq_take.1 hp]
        have htake : (q'.map LogEntry.command).take index =
            (q'.map LogEntry.command).take (index - 1) ++ [c] := by
          rw [show index = index - 1 + 1 by omega, List.take_add_one, Nat.add_sub_cancel, hget]
          rfl
        rw [htake, show index - 1 = (q.map LogEntry.command).length by omega]
  · obtain ⟨rest, hrest⟩ := hp
    refine Or.inl ?_
    rw [← hrest, List.getElem?_append_left hlt]
    exact hget

/-! ### Where snapshots come from -/

/-- All snapshots that are stored or on their way satisfy `P`. -/
structure Made (P : ℕ × σ → Prop) (t : Replicas n svc) : Prop where
  raft : ∀ i d, (t.hosts i).raft.snapshot = some d → P (d.index, d.state)
  batch : ∀ i d term index, .snapshot (some d) term index ∈ (t.hosts i).batch → P (d.index, d.state)
  captured : ∀ i d, (t.hosts i).captured = some d → P d
  net : ∀ p ∈ t.net, ∀ args d, p.rpc = .installSnapshot args → args.data = some d →
    P (d.index, d.state)

variable {P Q : ℕ × σ → Prop}

lemma made_init : Made P (init n svc) :=
  ⟨fun _ _ h => (nomatch h), fun _ _ _ _ h => (nomatch h), fun _ _ h => (nomatch h),
    fun _ h => (nomatch h)⟩

lemma Made.mono (h : Made P t) (hPQ : ∀ d, P d → Q d) : Made Q t :=
  ⟨fun i d hd => hPQ _ (h.raft i d hd), fun i d term index hd => hPQ _ (h.batch i d term index hd),
    fun i d hd => hPQ _ (h.captured i d hd), fun p hp args d ha hd => hPQ _ (h.net p hp args d ha hd)⟩

/-- A critical section that the service has nothing to do with leaves the snapshot as it is, unless one
arrives. -/
lemma snapshot_of_handle {rf rf' : Raft n C σ} {x : Input n C σ} {terms : List ℕ}
    (h : rf.handle x = some (rf', terms)) (hout : x.Outward) :
    rf'.snapshot = rf.snapshot ∨ ∃ args, x = .installSnapshot args ∧ rf'.snapshot = args.data := by
  have hquiet : Raft.Quiet rf rf' → rf'.snapshot = rf.snapshot :=
    fun hq => (Raft.mark_eq_iff.1 hq.1).2.2.2
  cases x with
  | callSnapshot index data => exact hout.elim
  | applyLog => exact hout.elim
  | installSnapshot args =>
    cases h
    obtain ⟨-, he⟩ | ⟨-, -, he⟩ | ⟨-, -, he⟩ := Raft.installSnapshot_cases rf args
    · rw [he]
      exact Or.inl rfl
    · rw [he]
      exact Or.inl (Raft.mark_eq_iff.1 (Raft.quiet_followLeader args.term).1).2.2.2
    · rw [he]
      have hmark := (Raft.mark_takeSnapshot (rf.followLeader args.term) args).1
      exact Or.inr ⟨args, rfl, (Raft.mark_eq_iff.1 hmark).2.2.2⟩
  | _ =>
    exact Or.inl (hquiet (Raft.handle_quiet h (by rintro _ ⟨⟩) (by rintro _ _ ⟨⟩) (by rintro ⟨⟩)))

/-- A step of the mesh: what a server sends is its own snapshot, and what it takes over was sent. -/
lemma Made.mesh (h : Made P t) {e : MeshEvent n C} {m : Mesh n C σ} (hm : t.mesh.Moved e m i) :
    Made P (t.withMesh m) := by
  have hraft : ∀ j d, (m.rafts j).snapshot = some d → P (d.index, d.state) := by
    intro j d hd
    by_cases hj : j = i
    · subst hj
      obtain hself | ⟨x, terms, hx, hcause⟩ := hm.self
      · rw [hself] at hd
        exact h.raft j d hd
      · obtain hsame | ⟨args, rfl, hargs⟩ := snapshot_of_handle hx hcause.outward
        · exact h.raft j d (hsame.symm.trans hd)
        · obtain ⟨p, hp, hr⟩ := hcause.installSnapshot args rfl
          exact h.net p hp args d hr (hargs.symm.trans hd)
    · rw [hm.other j hj] at hd
      exact h.raft j d hd
  refine ⟨hraft, h.batch, h.captured, fun p hp args d ha hd => ?_⟩
  rcases hm.sent p hp with hp | hcarries
  · exact h.net p hp args d ha hd
  · exact hraft i d ((hcarries args ha).2.symm.trans hd)

/-- One process moves. -/
lemma Made.setHost (h : Made P t) {host : Host n svc}
    (hhosts : t'.hosts = Function.update t.hosts i host) (hnet : t'.net = t.net)
    (hraft : ∀ d, host.raft.snapshot = some d → P (d.index, d.state))
    (hbatch : ∀ d term index, .snapshot (some d) term index ∈ host.batch → P (d.index, d.state))
    (hcaptured : ∀ d, host.captured = some d → P d) : Made P t' := by
  refine ⟨fun j => ?_, fun j => ?_, fun j => ?_, hnet ▸ h.net⟩ <;> rw [hhosts] <;>
    by_cases hj : j = i
  · rw [hj, Function.update_self]
    exact hraft
  · rw [Function.update_of_ne hj]
    exact h.raft j
  · rw [hj, Function.update_self]
    exact hbatch
  · rw [Function.update_of_ne hj]
    exact h.batch j
  · rw [hj, Function.update_self]
    exact hcaptured
  · rw [Function.update_of_ne hj]
    exact h.captured j

/-- What `applyLog` collects is the snapshot of the server and commands. -/
lemma snapshot_of_applyLog {rf rf' : Raft n C σ} {msgs : List (ApplyMsg C σ)}
    (h : rf.applyLog = some (rf', msgs)) : rf'.snapshot = rf.snapshot ∧
      ∀ d term index, .snapshot (some d) term index ∈ msgs → rf.snapshot = some d := by
  obtain ⟨snap, cmds, lastApplied, rfl, rfl, hsnap, hcmds⟩ := Raft.applyLog_cases h
  refine ⟨rfl, fun d term index hmem => ?_⟩
  rcases List.mem_append.1 hmem with hmem | hmem
  · obtain ⟨-, rfl⟩ | ⟨-, e, rfl⟩ := hsnap
    · cases hmem
    · exact (ApplyMsg.snapshot.inj (List.mem_singleton.1 hmem)).1.symm
  · obtain ⟨-, rfl, -⟩ | ⟨-, hcmds, -⟩ := hcmds
    · cases hmem
    · obtain ⟨j, hj⟩ := List.mem_iff_getElem?.1 hmem
      obtain ⟨e, -, heq⟩ := (Raft.commandMsgs_spec hcmds).2 j _ hj
      cases heq

/-- What `Snapshot` stores is what it is given, if it stores anything. -/
lemma snapshot_of_callSnapshot {rf : Raft n C σ} {index : ℕ} {data d : Snapshot C σ}
    (h : (rf.callSnapshot index data).snapshot = some d) :
    rf.snapshot = some d ∨ (d.index, d.state) = (data.index, data.state) := by
  rcases Nat.lt_or_ge rf.lastIncludedIndex index with hlt | hge
  · obtain ⟨⟨covered, hmark⟩, -⟩ := Raft.mark_callSnapshot data hlt
    rw [(Raft.mark_eq_iff.1 hmark).2.2.2] at h
    cases h
    exact Or.inr rfl
  · rw [show rf.callSnapshot index data = rf from if_pos hge] at h
    exact Or.inl h

/-- **One step**: only `makeSnapshot` writes a new one. -/
theorem Made.step (h : Made P t) (hi : t.Inv) {e : ReplicasEvent n svc} (hs : t.step e = some t')
    (hcapture : ∀ i, e = .host i .capture → P (svc.makeSnapshot (t.hosts i).service)) :
    Made P t' := by
  cases e with
  | mesh e =>
    obtain ⟨m, hm, rfl⟩ := Option.map_eq_some_iff.1 hs
    obtain ⟨i, hmoved⟩ := Mesh.step_moved hm
    exact h.mesh hmoved
  | host i e =>
    obtain ⟨hraft, host, hhost, ht⟩ := step_host hs
    have hhosts : t'.hosts = Function.update t.hosts i host := by
      obtain ⟨-, rfl⟩ | ⟨-, rfl⟩ := ht <;> rfl
    have hnet : t'.net = t.net := by
      obtain ⟨-, rfl⟩ | ⟨-, rfl⟩ := ht <;> rfl
    cases e with
    | raft x => exact absurd rfl (hraft x)
    | applyLog =>
      dsimp only [Host.step] at hhost
      split at hhost
      · obtain ⟨⟨rf, msgs⟩, hr, rfl⟩ := Option.map_eq_some_iff.1 hhost
        obtain ⟨hsnap, hmsgs⟩ := snapshot_of_applyLog hr
        refine h.setHost hhosts hnet (fun d hd => ?_) (fun d term index hd => ?_) (h.captured i)
        · exact h.raft i d (hsnap.symm.trans hd)
        · exact h.raft i d (hmsgs d term index hd)
      · cases hhost
    | applyMsg =>
      dsimp only [Host.step] at hhost
      split at hhost
      · cases hhost
      · rename_i msg batch hb
        obtain ⟨k, -, rfl⟩ := Option.map_eq_some_iff.1 hhost
        refine h.setHost hhosts hnet (h.raft i) (fun d term index hd => ?_) (h.captured i)
        exact h.batch i d term index (hb ▸ List.mem_cons_of_mem _ hd)
    | capture =>
      cases hhost
      refine h.setHost hhosts hnet (h.raft i) (h.batch i) (fun d hd => ?_)
      cases hd
      exact hcapture i rfl
    | snapshot =>
      obtain ⟨d, hd, rfl⟩ := Option.map_eq_some_iff.1 hhost
      refine h.setHost hhosts hnet (fun d' hd' => ?_) (h.batch i) (fun d' hd' => (nomatch hd'))
      obtain hd' | heq := snapshot_of_callSnapshot hd'
      · exact h.raft i d' hd'
      · rw [heq]
        exact h.captured i d hd
    | background b =>
      cases hhost
      exact h.setHost hhosts hnet (h.raft i) (h.batch i) (h.captured i)
    | crash =>
      cases hhost
      refine h.setHost hhosts hnet (fun d hd => ?_) (fun _ _ _ hd => (nomatch hd))
        fun _ hd => (nomatch hd)
      -- the server starts with what it had saved
      have hmark := Raft.mark_make (t.hosts i).raft.me (t.hosts i).raft.persister
      refine h.raft i d ?_
      rw [← (hi.hosts i).saved, ← (Raft.mark_eq_iff.1 hmark).2.2.2]
      exact hd

/-- What a process restores from after a crash. -/
lemma Made.persisted (h : Made P t) (hi : t.Inv) {d : Snapshot C σ}
    (hd : (t.hosts i).raft.persister.snapshot = some d) : P (d.index, d.state) := by
  refine h.raft i d ?_
  rw [← (hi.hosts i).saved]
  exact hd

end Replicas

end RaftLabs
