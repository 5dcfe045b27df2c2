import RaftLabs.Raft.Mesh
import RaftLabs.Rebuild

/-!
# A service replicated by Raft

`n` processes of the kind `Host` describes, each with a Raft server and a service, and the RPCs that
the Raft servers exchange.  Nothing is left to assumptions here: what a server is sent, another one
has sent, and a snapshot that arrives from a leader is one that some service has written.

In particular the services of all processes take their messages without a panic in every run
(`Replicas.no_panic`).
-/

namespace RaftLabs

open Lib

structure Replicas (n : ℕ) {C σ : Type} (svc : Service C σ) where
  hosts : Fin n → Host n svc
  epochs : Fin n → ℕ
  net : List (Parcel n C σ)

/-- What can happen next: something in the network, or inside of one process. -/
inductive ReplicasEvent (n : ℕ) {C σ : Type} (svc : Service C σ)
  | mesh (e : MeshEvent n C)
  | host (i : Fin n) (e : HostEvent n svc)

variable {n : ℕ} {C σ : Type} [Inhabited C] {svc : Service C σ}

/-- Short of a crash, a service only gets further. -/
lemma Host.lastApplied_le_step {h h' : Host n svc} {e : HostEvent n svc} (hs : h.step e = some h')
    (he : e ≠ .crash) : svc.lastApplied h.service ≤ svc.lastApplied h'.service := by
  cases e with
  | raft x =>
    cases x with
    | callSnapshot index data => cases hs
    | applyLog => cases hs
    | _ =>
      rw [Host.step_raft (by rintro _ _ ⟨⟩) (by rintro ⟨⟩)] at hs
      obtain ⟨r, -, rfl⟩ := Option.map_eq_some_iff.1 hs
      exact le_rfl
  | applyLog =>
    dsimp only [Host.step] at hs
    split at hs
    · obtain ⟨r, -, rfl⟩ := Option.map_eq_some_iff.1 hs
      exact le_rfl
    · cases hs
  | applyMsg =>
    dsimp only [Host.step] at hs
    split at hs
    · cases hs
    · rename_i msg batch hb
      obtain ⟨k, hk, rfl⟩ := Option.map_eq_some_iff.1 hs
      cases msg with
      | command c index =>
        have hnext := svc.exec_isSome.1 (Option.isSome_of_eq_some hk)
        have hpos := svc.lastApplied_exec hk
        show svc.lastApplied h.service ≤ svc.lastApplied k
        omega
      | snapshot data term index =>
        cases data with
        | none => cases hk
        | some d =>
          show svc.lastApplied h.service ≤ svc.lastApplied k
          rw [svc.lastApplied_applySnapshot hk]
          exact le_max_left _ _
  | capture =>
    cases hs
    exact le_rfl
  | snapshot =>
    obtain ⟨d, -, rfl⟩ := Option.map_eq_some_iff.1 hs
    exact le_rfl
  | background b =>
    cases hs
    exact (svc.lastApplied_background h.service b).ge
  | crash => exact absurd rfl he

namespace Replicas

/-- Every process has just been started for the first time. -/
def init (n : ℕ) (svc : Service C σ) : Replicas n svc := ⟨Host.init svc, fun _ => 0, []⟩

variable (t : Replicas n svc)

/-- The Raft servers and the network between them. -/
def mesh : Mesh n C σ := ⟨fun i => (t.hosts i).raft, t.epochs, t.net⟩

/-- The services of `t` on top of another mesh. -/
def withMesh (m : Mesh n C σ) : Replicas n svc :=
  ⟨fun i => { t.hosts i with raft := m.rafts i }, m.epochs, m.net⟩

def setHost (i : Fin n) (h : Host n svc) : Replicas n svc :=
  { t with hosts := Function.update t.hosts i h }

/-- One step.  The critical sections of a Raft server that its own process does not ask for are those
of the mesh. -/
def step : ReplicasEvent n svc → Option (Replicas n svc)
  | .mesh e => (t.mesh.step e).map t.withMesh
  | .host _ (.raft _) => none
  | .host i .crash =>
    ((t.hosts i).step .crash).map fun h =>
      { t.setHost i h with epochs := Function.update t.epochs i (t.epochs i + 1) }
  | .host i e => ((t.hosts i).step e).map (t.setHost i)

/-- The step does not deliver an `ApplyEntries` that `H` rules out. -/
def Heeds (H : Raft n C σ → ApplyEntriesArgs n C → Prop) (t : Replicas n svc) :
    ReplicasEvent n svc → Prop
  | .mesh e => t.mesh.Heeds H e
  | .host _ _ => True

instance {H : Raft n C σ → ApplyEntriesArgs n C → Prop} [∀ rf args, Decidable (H rf args)]
    (t : Replicas n svc) (e : ReplicasEvent n svc) : Decidable (t.Heeds H e) :=
  match e with
  | .mesh e => inferInstanceAs (Decidable (t.mesh.Heeds H e))
  | .host _ _ => isTrue trivial

/-! ### Inside of the processes -/

variable {t} {t' : Replicas n svc} {i : Fin n}

/-- The inversion of a step inside of a process. -/
lemma step_host {e : HostEvent n svc} (hs : t.step (.host i e) = some t') :
    (∀ x, e ≠ .raft x) ∧ ∃ h, (t.hosts i).step e = some h ∧
      ((e = .crash ∧ t' = { t.setHost i h with
          epochs := Function.update t.epochs i (t.epochs i + 1) }) ∨
        (e ≠ .crash ∧ t' = t.setHost i h)) := by
  cases e with
  | raft x => cases hs
  | crash =>
    dsimp only [step] at hs
    rw [Option.map_eq_some_iff] at hs
    obtain ⟨h, hh, rfl⟩ := hs
    exact ⟨by rintro _ ⟨⟩, h, hh, Or.inl ⟨rfl, rfl⟩⟩
  | _ =>
    dsimp only [step] at hs
    rw [Option.map_eq_some_iff] at hs
    obtain ⟨h, hh, rfl⟩ := hs
    exact ⟨by rintro _ ⟨⟩, h, hh, Or.inr ⟨by rintro ⟨⟩, rfl⟩⟩

/-- The bytes of a snapshot on the network start with its index. -/
def Encodes (rpc : Rpc n C σ) : Prop :=
  ∀ args, rpc = .installSnapshot args → 0 < args.lastIncludedIndex →
    args.data.map Snapshot.index = some args.lastIncludedIndex

/-- What holds in every run. -/
structure Inv (t : Replicas n svc) : Prop where
  hosts : ∀ i, (t.hosts i).Inv
  net : ∀ p ∈ t.net, Encodes p.rpc

lemma inv_init : (init n svc).Inv := ⟨Host.inv_init, fun _ hp => (nomatch hp)⟩

omit [Inhabited C] in
lemma Inv.setHost (hi : t.Inv) {h : Host n svc} (hh : h.Inv) : (t.setHost i h).Inv := by
  refine ⟨fun j => ?_, hi.net⟩
  by_cases hj : j = i
  · subst hj
    show (Function.update t.hosts j h j).Inv
    rw [Function.update_self]
    exact hh
  · show (Function.update t.hosts i h j).Inv
    rw [Function.update_of_ne hj]
    exact hi.hosts j

/-- A step of the mesh is, for every process, a critical section with the arguments of an RPC. -/
lemma Inv.mesh (hi : t.Inv) {e : MeshEvent n C} {m : Mesh n C σ} (hm : t.mesh.Moved e m i) :
    (t.withMesh m).Inv := by
  have hsame : ∀ j, m.rafts j = (t.hosts j).raft → (t.withMesh m).hosts j = t.hosts j := by
    intro j hj
    show { t.hosts j with raft := m.rafts j } = t.hosts j
    rw [hj]
  have hhost : ((t.withMesh m).hosts i).Inv := by
    obtain hself | ⟨x, terms, hx, hcause⟩ := hm.self
    · rw [hsame i hself]
      exact hi.hosts i
    · refine Host.Inv.step (hi.hosts i) (e := .raft x) ?_ ?_
      · unfold Host.Encoded
        split
        · rename_i args he
          cases he
          obtain ⟨p, hp, hr⟩ := hcause.installSnapshot args rfl
          exact hi.net p hp args hr
        · trivial
      · rw [Host.step_raft (by rintro _ _ rfl; exact hcause.outward)
          (by rintro rfl; exact hcause.outward)]
        exact Option.map_eq_some_iff.2 ⟨_, hx, rfl⟩
  refine ⟨fun j => ?_, fun p hp args ha hpos => ?_⟩
  · by_cases hj : j = i
    · rw [hj]
      exact hhost
    · rw [hsame j (hm.other j hj)]
      exact hi.hosts j
  · rcases hm.sent p hp with hp | hcarries
    · exact hi.net p hp args ha hpos
    · obtain ⟨hindex, hdata⟩ := hcarries args ha
      have hidx := hhost.index
      change ((m.rafts i).snapshot.map Snapshot.index).getD 0 = (m.rafts i).lastIncludedIndex at hidx
      rw [hdata, hindex, ← hidx]
      cases hd : (m.rafts i).snapshot with
      | none =>
        rw [hd] at hidx
        change 0 = _ at hidx
        omega
      | some d => rfl

/-- **One step keeps the services aligned.** -/
theorem Inv.step {e : ReplicasEvent n svc} (hi : t.Inv) (hs : t.step e = some t') : t'.Inv := by
  cases e with
  | mesh e =>
    obtain ⟨m, hm, rfl⟩ := Option.map_eq_some_iff.1 hs
    obtain ⟨i, hmoved⟩ := Mesh.step_moved hm
    exact hi.mesh hmoved
  | host i e =>
    obtain ⟨hraft, h, hh, ht⟩ := step_host hs
    have hok : (t.hosts i).Encoded e := by
      unfold Host.Encoded
      split
      · exact absurd rfl (hraft _)
      · trivial
    have hset := hi.setHost (i := i) ((hi.hosts i).step hok hh)
    obtain ⟨-, rfl⟩ | ⟨-, rfl⟩ := ht
    · exact ⟨hset.hosts, hset.net⟩
    · exact hset

lemma reachable_inv {ok : Replicas n svc → ReplicasEvent n svc → Prop}
    (h : Reachable step ok (init n svc) t) : t.Inv :=
  Reachable.invariant (P := Inv) inv_init (fun _ _ _ _ hi _ hs => hi.step hs) h

/-- **No service ever panics.**  In every run of the processes, whatever the network does and whenever
they crash, the next message of every service is the command after `LastApplied` or a snapshot whose
bytes start with its index, and the service takes it. -/
theorem no_panic (h : Reachable step anyStep (init n svc) t) (i : Fin n) : (t.hosts i).Ready :=
  ((reachable_inv h).hosts i).ready

/-- Server `0` of three commits a command with server `1`, takes a snapshot of it and sends it to server
`2`, which has missed the command. -/
def catchUp (c : C) : List (ReplicasEvent 3 svc) :=
  [.mesh (.electionTimeout 0), .mesh (.deliver 0), .mesh (.deliver 1), .mesh (.drop 0),
    .mesh (.start 0 c), .mesh (.deliver 0), .mesh (.deliver 1), .mesh (.drop 0), .host 0 .applyLog,
    .host 0 .applyMsg, .host 0 .capture, .host 0 .snapshot, .mesh (.heartbeatTimeout 0),
    .mesh (.deliver 1), .host 2 .applyLog]

theorem no_panic_catchUp : ∃ t : Replicas 3 kvraft, Reachable step anyStep (init 3 kvraft) t ∧
    (t.hosts 2).batch.length = 1 ∧ (t.hosts 2).service.lastApplied = 0 ∧ (t.hosts 2).Ready := by
  have hrun : ((run step (init 3 kvraft) (catchUp default)).map fun t =>
      decide ((t.hosts 2).batch.length = 1 ∧ kvraft.lastApplied (t.hosts 2).service = 0)) =
      some true := by
    decide +kernel
  obtain ⟨t, ht, hd⟩ := Option.map_eq_some_iff.1 hrun
  obtain ⟨hb, hz⟩ := of_decide_eq_true hd
  have hreach := Reachable.init.run ht
  exact ⟨t, hreach, hb, hz, no_panic hreach 2⟩

end Replicas

end RaftLabs
