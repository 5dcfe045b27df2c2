import RaftLabs.Raft.Mesh
import RaftLabs.Raft.StateMachine

/-!
# Where the commands come from

A server's log grows in two ways: a leader appends the command that `Start` is called with, and a
follower adopts entries from a leader.  So every entry of a log can be traced back along the leaders'
logs to a call of `Start` (`LeaderLog.entry_cases`), and nothing is ever committed that no user asked
for.
-/

namespace RaftLabs

open Lib

variable {n : ℕ} {C σ : Type} [Inhabited C]

/-- Whoever is leader after a critical section other than `Start` has the log it had before. -/
lemma Raft.logical_of_handle {rf rf' : Raft n C σ} {x : Input n C σ} {terms : List ℕ}
    (h : rf.handle x = some (rf', terms)) (hout : x.Outward) (hstart : ∀ command, x ≠ .start command)
    (hl : rf'.identity = .leader) : rf'.logical = rf.logical := by
  have hstore : rf'.store = rf.store ∨ rf'.store = rf.store.save → rf'.logical = rf.logical := by
    rintro (h | h)
    · exact congrArg Store.logical h
    · exact (congrArg Store.logical h).trans (Store.save_logical _)
  have hfollow : ∀ {t : ℕ}, rf'.ballot = (rf.ballot.follow t).save → rf'.logical = rf.logical := by
    intro t hb
    have := congrArg Ballot.identity hb
    cases hl.symm.trans this
  cases x with
  | requestVote args =>
    obtain ⟨⟨rf₁, reply⟩, hr, h⟩ := Option.map_eq_some_iff.1 h
    cases h
    exact hstore (Or.inr (store_requestVote hr))
  | requestVoteReply args reply =>
    cases h
    exact hstore (store_requestVoteReply args reply)
  | applyEntries args =>
    obtain ⟨⟨rf₁, reply⟩, hr, h⟩ := Option.map_eq_some_iff.1 h
    cases h
    obtain h | ⟨-, -, -, hb, -⟩ := store_applyEntries hr
    · exact hstore (Or.inr h)
    · exact hfollow hb
  | applyEntriesReply server args reply =>
    obtain ⟨rf₁, hr, h⟩ := Option.map_eq_some_iff.1 h
    cases h
    exact hstore (store_sendApplyEntriesTo hr)
  | installSnapshot args =>
    cases h
    obtain h | ⟨-, -, hb, -⟩ := store_installSnapshot rf args
    · exact hstore (Or.inl h)
    · exact hfollow hb
  | installSnapshotReply server args reply =>
    cases h
    exact hstore (store_sendInstallSnapshotTo server args reply)
  | electionTimeout =>
    obtain ⟨⟨rf₁, calls⟩, hr, h⟩ := Option.map_eq_some_iff.1 h
    cases h
    exact hstore (store_electionTimeout hr)
  | heartbeatTimeout =>
    obtain ⟨calls, hr, h⟩ := Option.map_eq_some_iff.1 h
    cases h
    rfl
  | start command => exact absurd rfl (hstart command)
  | callSnapshot index data => exact hout.elim
  | applyLog => exact hout.elim

/-- `Snapshot` adds nothing to the log. -/
lemma Raft.mem_logical_callSnapshot {rf : Raft n C σ} {index : ℕ} {data : Snapshot C σ}
    {x : LogEntry C} (hx : x ∈ (rf.callSnapshot index data).logical) : x ∈ rf.logical := by
  obtain ⟨-, h⟩ | ⟨-, h⟩ := store_callSnapshot rf index data
  · rwa [h] at hx
  · have hlog : (rf.callSnapshot index data).logical =
        rf.logical.take index ++ (rf.store.discard index).logs.tail := congrArg Store.logical h
    rw [hlog] at hx
    rcases List.mem_append.1 hx with hx | hx
    · exact List.mem_of_mem_take hx
    · refine List.mem_append_right _ ?_
      change x ∈ (rf.logs.drop _).tail at hx
      rw [List.tail_drop, ← List.drop_tail] at hx
      exact List.mem_of_mem_drop hx

namespace Cluster

variable {s s' : Cluster n C} {past tr : List (Cluster n C)} {i : Fin n} {x : LogEntry C}

/-- Some leader has had the entry in its log. -/
def Led (tr : List (Cluster n C)) (x : LogEntry C) : Prop := ∃ t l, LeaderLog tr t l ∧ x ∈ l

/-- What is in a server's log was in a leader's. -/
lemma Sound.led (h : Sound tr i (s.raft i)) (hx : x ∈ (s.raft i).logical) : Led tr x :=
  ⟨_, _, h.genuine _ (List.prefix_refl _) (List.ne_nil_of_mem hx), hx⟩

lemma step_toEvent (s : Cluster n C) (e : MeshEvent n C) :
    s.step e.toEvent = (s.mesh.step e).map s.withMesh := by
  have h := withMesh_step s s.mesh e
  rwa [withMesh_mesh] at h

/-- A leader's log before a step of the mesh. -/
lemma mem_logical_mesh {H : Raft n C (List C) → ApplyEntriesArgs n C → Prop} {e : MeshEvent n C}
    {m : Mesh n C (List C)} (htr : Run H (s :: past)) (hm : s.mesh.step e = some m)
    (hl : (m.rafts i).identity = .leader) (hx : x ∈ (m.rafts i).logical) :
    x ∈ (s.raft i).logical ∨ (e = .start i x.command ∧ (s.raft i).identity = .leader) := by
  obtain ⟨j, hmoved⟩ := Mesh.step_moved hm
  by_cases hij : i = j
  · subst hij
    obtain hself | ⟨y, terms, hy, hcause⟩ := hmoved.self
    · rw [hself] at hx
      exact Or.inl hx
    · by_cases hstart : ∃ command, y = .start command
      · obtain ⟨command, rfl⟩ := hstart
        obtain ⟨⟨rf, res, calls⟩, hr, heq⟩ := Option.map_eq_some_iff.1 hy
        obtain ⟨heq, -⟩ := Prod.mk.inj heq
        rw [← heq] at hx
        obtain ⟨-, rfl, -⟩ | ⟨hleader, rfl, -⟩ := Raft.start_cases hr
        · exact Or.inl hx
        · have hlog := Store.logical_append (b := (s.raft i).store) (htr.shapely.1 i).logs_ne
            ⟨command, (s.raft i).currentTerm⟩
          change x ∈ ((s.raft i).store.append ⟨command, (s.raft i).currentTerm⟩).logical at hx
          rw [hlog] at hx
          rcases List.mem_append.1 hx with hx | hx
          · exact Or.inl hx
          · rw [List.mem_singleton.1 hx]
            exact Or.inr ⟨hcause.start command rfl, hleader⟩
      · push Not at hstart
        rw [Raft.logical_of_handle hy hcause.outward hstart hl] at hx
        exact Or.inl hx
  · rw [hmoved.other i hij] at hx
    exact Or.inl hx

/-- A leader's log, one step before. -/
lemma mem_logical_step {H : Raft n C (List C) → ApplyEntriesArgs n C → Prop} {e : Event n C}
    (htr : Run H (s :: past)) (hs : s.step e = some s') (hl : (s'.raft i).identity = .leader)
    (hx : x ∈ (s'.raft i).logical) :
    x ∈ (s.raft i).logical ∨ (e = .start i x.command ∧ (s.raft i).identity = .leader) := by
  have hmesh : ∀ me : MeshEvent n C, me.toEvent = e → x ∈ (s.raft i).logical ∨
      (e = .start i x.command ∧ (s.raft i).identity = .leader) := by
    rintro me rfl
    rw [step_toEvent] at hs
    obtain ⟨m, hm, rfl⟩ := Option.map_eq_some_iff.1 hs
    obtain h | ⟨rfl, h⟩ := mem_logical_mesh htr hm hl hx
    · exact Or.inl h
    · exact Or.inr ⟨rfl, h⟩
  have hlocal : ∀ (j : Fin n) (node : Node n C), s' = s.setNode j node →
      (i = j → node.raft.identity = .leader → x ∈ node.raft.logical → x ∈ (s.raft i).logical) →
      x ∈ (s.raft i).logical := by
    rintro j node rfl h
    by_cases hij : i = j
    · subst hij
      have hself : (s.setNode i node).raft i = node.raft :=
        congrArg Node.raft (Function.update_self ..)
      rw [hself] at hl hx
      exact h rfl hl hx
    · have hother : (s.setNode j node).raft i = s.raft i :=
        congrArg Node.raft (Function.update_of_ne hij ..)
      rwa [hother] at hx
  cases e with
  | electionTimeout j => exact hmesh (.electionTimeout j) rfl
  | heartbeatTimeout j => exact hmesh (.heartbeatTimeout j) rfl
  | start j command => exact hmesh (.start j command) rfl
  | drop k => exact hmesh (.drop k) rfl
  | deliver k => exact hmesh (.deliver k) rfl
  | snapshot j index =>
    dsimp only [step] at hs
    split at hs
    · refine Or.inl (hlocal j _ (Option.some.inj hs).symm ?_)
      rintro rfl - hx
      exact Raft.mem_logical_callSnapshot hx
    · cases hs
  | applyLog j =>
    dsimp only [step] at hs
    split at hs
    · obtain ⟨⟨rf, batch⟩, hr, hs⟩ := Option.map_eq_some_iff.1 hs
      refine Or.inl (hlocal j _ hs.symm ?_)
      rintro rfl - hx
      rwa [← Raft.store_logical, ← Raft.store_applyLog hr]
    · cases hs
  | applyMsg j =>
    dsimp only [step] at hs
    split at hs
    · cases hs
    · refine Or.inl (hlocal j _ (Option.some.inj hs).symm ?_)
      rintro rfl - hx
      rwa [Node.take_raft] at hx
  | crash j =>
    refine Or.inl (hlocal j _ (Option.some.inj hs).symm ?_)
    rintro rfl hl -
    cases (Node.restart_identity _).symm.trans hl

/-- **Validity.**  What a leader has in its log a leader had before, or it has just been handed to
`Start`. -/
theorem Led.cases {e : Event n C} (htr : Run Raft.HoldsHidden (s :: past))
    (hs : s.step e = some s') (h : Led (s' :: s :: past) x) : Led (s :: past) x ∨
      ∃ i, e = .start i x.command ∧ (s.raft i).identity = .leader := by
  obtain ⟨t, l, hl, hx⟩ := h
  rcases hl.cases with hl | ⟨i, hid, -, rfl⟩
  · exact Or.inl ⟨t, l, hl, hx⟩
  · rcases mem_logical_step htr hs hid hx with hx | hstart
    · exact Or.inl ((htr.inv.sound i).led hx)
    · exact Or.inr ⟨i, hstart⟩

end Cluster

end RaftLabs
