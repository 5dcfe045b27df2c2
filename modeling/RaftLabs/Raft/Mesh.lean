import RaftLabs.Raft.SnapshotMap
import RaftLabs.Raft.Turns

/-!
# Raft servers on a network, for any kind of snapshot

`Cluster` fixes what a snapshot is: the commands it stands for.  A `Mesh` is the part of it that runs
for any service, the servers and the RPCs in flight, with a snapshot being whatever the service
wrote.  Its steps are those that no service takes part in.

Since Raft does not look into snapshots, replacing their contents everywhere in a mesh commutes with
its steps (`Mesh.map_step`), and a step of the mesh inside a cluster is a step of the cluster
(`Cluster.step_mesh`).
-/

set_option linter.unusedSectionVars false

namespace RaftLabs

open Lib

/-- An RPC in flight, with the incarnation of the calling server. -/
structure Parcel (n : ℕ) (C σ : Type) where
  caller : Fin n
  callee : Fin n
  epoch : ℕ
  rpc : Rpc n C σ

structure Mesh (n : ℕ) (C σ : Type) where
  rafts : Fin n → Raft n C σ
  epochs : Fin n → ℕ
  net : List (Parcel n C σ)

/-- What can happen next without the services. -/
inductive MeshEvent (n : ℕ) (C : Type)
  | electionTimeout (i : Fin n)
  | heartbeatTimeout (i : Fin n)
  | start (i : Fin n) (command : C)
  | drop (k : ℕ)
  | deliver (k : ℕ)

variable {n : ℕ} {C σ τ : Type} [Inhabited C]

namespace Mesh

variable (m : Mesh n C σ)

def setRaft (i : Fin n) (rf : Raft n C σ) : Mesh n C σ :=
  { m with rafts := Function.update m.rafts i rf }

/-- Server `i` makes these calls. -/
def send (i : Fin n) (calls : List (Fin n × Rpc n C σ)) : Mesh n C σ :=
  { m with net := m.net ++ calls.map fun c => ⟨i, c.1, m.epochs i, c.2⟩ }

/-- The RPC at place `k` has arrived or is lost. -/
def take (k : ℕ) : Mesh n C σ := { m with net := m.net.eraseIdx k }

/-- The callee of `p` answers it. -/
def answer (p : Parcel n C σ) (reply : Rpc n C σ) : Mesh n C σ :=
  { m with net := m.net ++ [{ p with rpc := reply }] }

/-- A parcel arrives: the callee executes a request, or a goroutine of the caller processes a reply,
if the caller has not crashed in the meantime. -/
def receive (p : Parcel n C σ) : Option (Mesh n C σ) :=
  match p.rpc with
  | .requestVote args =>
    ((m.rafts p.callee).requestVote args).map fun r =>
      (m.setRaft p.callee r.1).answer p (.requestVoteReply args r.2 r.1.logical)
  | .applyEntries args =>
    ((m.rafts p.callee).applyEntries args).map fun r =>
      (m.setRaft p.callee r.1).answer p (.applyEntriesReply args r.2 r.1.logical)
  | .installSnapshot args =>
    let r := (m.rafts p.callee).installSnapshot args
    some ((m.setRaft p.callee r.1).answer p (.installSnapshotReply args r.2 r.1.logical))
  | .requestVoteReply args reply _ =>
    if p.epoch = m.epochs p.caller then
      some (m.setRaft p.caller ((m.rafts p.caller).requestVoteReply args reply))
    else some m
  | .applyEntriesReply args reply _ =>
    if p.epoch = m.epochs p.caller then
      ((m.rafts p.caller).sendApplyEntriesTo p.callee args reply).map (m.setRaft p.caller)
    else some m
  | .installSnapshotReply args reply _ =>
    if p.epoch = m.epochs p.caller then
      some (m.setRaft p.caller ((m.rafts p.caller).sendInstallSnapshotTo p.callee args reply))
    else some m

def step : MeshEvent n C → Option (Mesh n C σ)
  | .electionTimeout i =>
    (m.rafts i).electionTimeout.map fun r => (m.setRaft i r.1).send i r.2
  | .heartbeatTimeout i =>
    (m.rafts i).heartbeatTimeout.map fun calls => m.send i calls
  | .start i command =>
    ((m.rafts i).start command).map fun r => (m.setRaft i r.1).send i r.2.2
  | .drop k => if k < m.net.length then some (m.take k) else none
  | .deliver k => m.net[k]?.bind fun p => (m.take k).receive p

/-- The step does not deliver an `ApplyEntries` that `H` rules out. -/
def Heeds (H : Raft n C σ → ApplyEntriesArgs n C → Prop) (m : Mesh n C σ) (e : MeshEvent n C) :
    Prop :=
  ∀ k p args, e = .deliver k → m.net[k]? = some p → p.rpc = .applyEntries args →
    H (m.rafts p.callee) args

/-- The `ApplyEntries` that an event delivers, and to whom. -/
def deliversEntries (m : Mesh n C σ) : MeshEvent n C → Option (Fin n × ApplyEntriesArgs n C)
  | .deliver k => m.net[k]?.bind fun p =>
      match p.rpc with
      | .applyEntries args => some (p.callee, args)
      | _ => none
  | _ => none

lemma heeds_iff {H : Raft n C σ → ApplyEntriesArgs n C → Prop} {m : Mesh n C σ}
    {e : MeshEvent n C} : m.Heeds H e ↔ ∀ a ∈ m.deliversEntries e, H (m.rafts a.1) a.2 := by
  constructor
  · intro h a ha
    cases e with
    | deliver k =>
      obtain ⟨p, hp, ha⟩ := Option.bind_eq_some_iff.1 ha
      split at ha
      · rename_i hr
        cases ha
        exact h k p _ rfl hp hr
      · cases ha
    | _ => cases ha
  · rintro h k p args rfl hp hr
    refine h (p.callee, args) ?_
    simp [deliversEntries, hp, hr]

instance {H : Raft n C σ → ApplyEntriesArgs n C → Prop} [∀ rf args, Decidable (H rf args)]
    (m : Mesh n C σ) (e : MeshEvent n C) : Decidable (m.Heeds H e) := decidable_of_iff _ heeds_iff.symm

/-! ### What a step does -/

end Mesh

/-- A critical section that the service has nothing to do with. -/
def Input.Outward : Input n C σ → Prop
  | .callSnapshot _ _ => False
  | .applyLog => False
  | _ => True

namespace Mesh

/-- The snapshot in an RPC is that of this server. -/
def Carries (rf : Raft n C σ) (rpc : Rpc n C σ) : Prop :=
  ∀ args, rpc = .installSnapshot args →
    args.lastIncludedIndex = rf.lastIncludedIndex ∧ args.data = rf.snapshot

/-- The arguments of a critical section are those of the event, or of an RPC. -/
structure Cause (m : Mesh n C σ) (e : MeshEvent n C) (i : Fin n) (x : Input n C σ) : Prop where
  outward : x.Outward
  start : ∀ command, x = .start command → e = .start i command
  installSnapshot : ∀ args, x = .installSnapshot args → ∃ p ∈ m.net, p.rpc = .installSnapshot args

/-- A step is the turn of server `i`: it runs a critical section, and the snapshots it sends are its
own. -/
structure Moved (m : Mesh n C σ) (e : MeshEvent n C) (m' : Mesh n C σ) (i : Fin n) : Prop where
  epochs : m'.epochs = m.epochs
  other : ∀ j ≠ i, m'.rafts j = m.rafts j
  self : m'.rafts i = m.rafts i ∨
    ∃ x terms, (m.rafts i).handle x = some (m'.rafts i, terms) ∧ m.Cause e i x
  sent : ∀ p ∈ m'.net, p ∈ m.net ∨ Carries (m'.rafts i) p.rpc

variable {m m' : Mesh n C σ} {e : MeshEvent n C} {i : Fin n} {rf : Raft n C σ}

lemma carries_of_sendHeartBeat {calls : List (Fin n × Rpc n C σ)}
    (h : rf.sendHeartBeat = some calls) {c : Fin n × Rpc n C σ} (hc : c ∈ calls) :
    Carries rf c.2 := by
  intro args ha
  obtain ⟨-, hbeat⟩ := Raft.mem_sendHeartBeat h hc
  obtain ⟨e, -, -, heq⟩ | ⟨k, e, -, heq⟩ := Raft.heartBeatTo_cases hbeat
  · cases ha.symm.trans heq
    exact ⟨rfl, rfl⟩
  · cases ha.symm.trans heq

/-- Server `i` has run the critical section `x`. -/
lemma moved_of_handle {x : Input n C σ} {terms : List ℕ}
    (hx : (m.rafts i).handle x = some (rf, terms)) (hcause : m.Cause e i x)
    (hrafts : m'.rafts = Function.update m.rafts i rf) (hepochs : m'.epochs = m.epochs)
    (hsent : ∀ p ∈ m'.net, p ∈ m.net ∨ Carries rf p.rpc) : m.Moved e m' i := by
  have hself : m'.rafts i = rf := by rw [hrafts, Function.update_self]
  refine ⟨hepochs, fun j hj => ?_, Or.inr ⟨x, terms, ?_, hcause⟩, ?_⟩
  · rw [hrafts, Function.update_of_ne hj]
  · rw [hself]
    exact hx
  · rw [hself]
    exact hsent

/-- What is on the network after server `i` has made its calls. -/
lemma mem_send {calls : List (Fin n × Rpc n C σ)} (hcalls : ∀ c ∈ calls, Carries rf c.2)
    {p : Parcel n C σ} (hp : p ∈ (m.send i calls).net) : p ∈ m.net ∨ Carries rf p.rpc := by
  rcases List.mem_append.1 hp with hp | hp
  · exact Or.inl hp
  · obtain ⟨c, hc, rfl⟩ := List.mem_map.1 hp
    exact Or.inr (hcalls c hc)

/-- What is on the network after an RPC has been answered. -/
lemma mem_answer {k : ℕ} {p q : Parcel n C σ} {reply : Rpc n C σ}
    (hr : ∀ args, reply ≠ .installSnapshot args)
    (hp : p ∈ ((m.take k).answer q reply).net) : p ∈ m.net ∨ Carries rf p.rpc := by
  rcases List.mem_append.1 hp with hp | hp
  · exact Or.inl (List.mem_of_mem_eraseIdx hp)
  · rw [List.mem_singleton.1 hp]
    exact Or.inr fun args ha => absurd ha (hr args)

/-- An RPC is lost, or comes too late. -/
lemma moved_take (k : ℕ) (i : Fin n) : m.Moved e (m.take k) i :=
  ⟨rfl, fun _ _ => rfl, Or.inl rfl, fun _ hp => Or.inl (List.mem_of_mem_eraseIdx hp)⟩

/-- **The inversion of a step.** -/
theorem step_moved (h : m.step e = some m') : ∃ i, m.Moved e m' i := by
  cases e with
  | electionTimeout i =>
    obtain ⟨⟨rf, calls⟩, hr, rfl⟩ := Option.map_eq_some_iff.1 h
    refine ⟨i, moved_of_handle (x := .electionTimeout) (Option.map_eq_some_iff.2 ⟨_, hr, rfl⟩)
      ⟨trivial, by rintro _ ⟨⟩, by rintro _ ⟨⟩⟩ rfl rfl
      fun p hp => mem_send (fun c hc args ha => ?_) hp⟩
    obtain ⟨-, -, rfl⟩ | ⟨-, last, -, -, rfl⟩ := Raft.electionTimeout_cases hr
    · cases hc
    · obtain ⟨j, -, rfl⟩ := List.mem_map.1 hc
      cases ha
  | heartbeatTimeout i =>
    obtain ⟨calls, hr, rfl⟩ := Option.map_eq_some_iff.1 h
    refine ⟨i, rfl, fun _ _ => rfl, Or.inl rfl, fun p hp => mem_send (fun c hc => ?_) hp⟩
    obtain rfl | ⟨-, hcalls⟩ := Raft.heartbeatTimeout_cases hr
    · cases hc
    · exact carries_of_sendHeartBeat hcalls hc
  | start i command =>
    obtain ⟨⟨rf, res, calls⟩, hr, rfl⟩ := Option.map_eq_some_iff.1 h
    refine ⟨i, moved_of_handle (x := .start command) (Option.map_eq_some_iff.2 ⟨_, hr, rfl⟩)
      ⟨trivial, by rintro _ ⟨⟩; rfl, by rintro _ ⟨⟩⟩ rfl rfl
      fun p hp => mem_send (fun c hc => ?_) hp⟩
    obtain ⟨-, -, rfl⟩ | ⟨-, -, hcalls⟩ := Raft.start_cases hr
    · cases hc
    · exact carries_of_sendHeartBeat hcalls hc
  | drop k =>
    dsimp only [step] at h
    split at h
    · rename_i hk
      cases h
      exact ⟨m.net[k].caller, moved_take k _⟩
    · cases h
  | deliver k =>
    obtain ⟨p, hp, h⟩ := Option.bind_eq_some_iff.1 h
    unfold receive at h
    split at h
    · rename_i args hr
      obtain ⟨⟨rf, reply⟩, hv, rfl⟩ := Option.map_eq_some_iff.1 h
      exact ⟨p.callee, moved_of_handle (x := .requestVote args)
        (Option.map_eq_some_iff.2 ⟨_, hv, rfl⟩) ⟨trivial, by rintro _ ⟨⟩, by rintro _ ⟨⟩⟩ rfl rfl
        fun q hq => mem_answer (by rintro _ ⟨⟩) hq⟩
    · rename_i args hr
      obtain ⟨⟨rf, reply⟩, hv, rfl⟩ := Option.map_eq_some_iff.1 h
      exact ⟨p.callee, moved_of_handle (x := .applyEntries args)
        (Option.map_eq_some_iff.2 ⟨_, hv, rfl⟩) ⟨trivial, by rintro _ ⟨⟩, by rintro _ ⟨⟩⟩ rfl rfl
        fun q hq => mem_answer (by rintro _ ⟨⟩) hq⟩
    · rename_i args hr
      cases h
      refine ⟨p.callee, moved_of_handle (x := .installSnapshot args) rfl
        ⟨trivial, by rintro _ ⟨⟩, ?_⟩ rfl rfl fun q hq => mem_answer (by rintro _ ⟨⟩) hq⟩
      rintro _ ⟨⟩
      exact ⟨p, List.mem_of_getElem? hp, hr⟩
    · rename_i args reply log hr
      split at h
      · cases h
        exact ⟨p.caller, moved_of_handle (x := .requestVoteReply args reply) rfl
          ⟨trivial, by rintro _ ⟨⟩, by rintro _ ⟨⟩⟩ rfl rfl fun q hq => Or.inl (List.mem_of_mem_eraseIdx hq)⟩
      · cases h
        exact ⟨p.caller, moved_take k _⟩
    · rename_i args reply log hr
      split at h
      · obtain ⟨rf, hv, rfl⟩ := Option.map_eq_some_iff.1 h
        exact ⟨p.caller, moved_of_handle (x := .applyEntriesReply p.callee args reply)
          (Option.map_eq_some_iff.2 ⟨_, hv, rfl⟩) ⟨trivial, by rintro _ ⟨⟩, by rintro _ ⟨⟩⟩ rfl rfl
          fun q hq => Or.inl (List.mem_of_mem_eraseIdx hq)⟩
      · cases h
        exact ⟨p.caller, moved_take k _⟩
    · rename_i args reply log hr
      split at h
      · cases h
        exact ⟨p.caller, moved_of_handle (x := .installSnapshotReply p.callee args reply) rfl
          ⟨trivial, by rintro _ ⟨⟩, by rintro _ ⟨⟩⟩ rfl rfl fun q hq => Or.inl (List.mem_of_mem_eraseIdx hq)⟩
      · cases h
        exact ⟨p.caller, moved_take k _⟩

/-! ### Other snapshots -/

end Mesh

def Parcel.map (f : σ → τ) (p : Parcel n C σ) : Parcel n C τ :=
  ⟨p.caller, p.callee, p.epoch, p.rpc.map f⟩

namespace Mesh

def map (f : σ → τ) (m : Mesh n C σ) : Mesh n C τ :=
  ⟨fun i => (m.rafts i).map f, m.epochs, m.net.map (Parcel.map f)⟩

variable (f : σ → τ) (m : Mesh n C σ)

lemma map_setRaft (i : Fin n) (rf : Raft n C σ) :
    (m.map f).setRaft i (rf.map f) = (m.setRaft i rf).map f := by
  unfold setRaft map
  congr 1
  funext j
  by_cases h : j = i
  · subst h
    simp
  · simp [h]

lemma map_send (i : Fin n) (calls : List (Fin n × Rpc n C σ)) :
    (m.map f).send i (Raft.mapCalls f calls) = (m.send i calls).map f := by
  simp [send, map, Raft.mapCalls, Parcel.map]

lemma map_answer (p : Parcel n C σ) (reply : Rpc n C σ) :
    (m.map f).answer (p.map f) (reply.map f) = (m.answer p reply).map f := by
  simp [answer, map, Parcel.map]

lemma map_take (k : ℕ) : (m.map f).take k = (m.take k).map f := by
  simp [take, map, List.eraseIdx_map]

lemma map_receive (p : Parcel n C σ) :
    (m.map f).receive (p.map f) = (m.receive p).map (map f) := by
  obtain ⟨caller, callee, epoch, rpc⟩ := p
  cases rpc with
  | requestVote args =>
    refine Raft.map_comm (map f) (Raft.map_requestVote f (m.rafts callee) args) fun r => ?_
    refine .trans ?_ (map_answer f (m.setRaft callee r.1) _ (.requestVoteReply args r.2 r.1.logical))
    rw [← map_setRaft, ← Raft.map_logical f]
    rfl
  | applyEntries args =>
    refine Raft.map_comm (map f) (Raft.map_applyEntries f (m.rafts callee) args) fun r => ?_
    refine .trans ?_ (map_answer f (m.setRaft callee r.1) _ (.applyEntriesReply args r.2 r.1.logical))
    rw [← map_setRaft, ← Raft.map_logical f]
    rfl
  | installSnapshot args =>
    refine congrArg some ?_
    refine .trans ?_ (map_answer f (m.setRaft callee ((m.rafts callee).installSnapshot args).1) _
      (.installSnapshotReply args ((m.rafts callee).installSnapshot args).2
        ((m.rafts callee).installSnapshot args).1.logical))
    rw [← map_setRaft, ← Raft.map_logical f]
    exact congrArg (fun r : Raft n C τ × InstallSnapshotReply => ((m.map f).setRaft callee r.1).answer
      _ (.installSnapshotReply (args.map f) r.2 r.1.logical))
      (Raft.map_installSnapshot f (m.rafts callee) args)
  | requestVoteReply args reply log =>
    refine Raft.ite_comm (Option.map _) (congrArg some ?_) rfl
    rw [← map_setRaft, ← Raft.map_requestVoteReply]
    rfl
  | applyEntriesReply args reply log =>
    refine Raft.ite_comm (Option.map _) ?_ rfl
    exact Raft.map_comm (map f) (Raft.map_sendApplyEntriesTo f (m.rafts caller) callee args reply)
      (map_setRaft f m caller)
  | installSnapshotReply args reply log =>
    refine Raft.ite_comm (Option.map _) (congrArg some ?_) rfl
    rw [← map_setRaft, ← Raft.map_sendInstallSnapshotTo]
    rfl

/-- **A mesh does not look into snapshots.** -/
theorem map_step (e : MeshEvent n C) : (m.map f).step e = (m.step e).map (map f) := by
  cases e with
  | electionTimeout i =>
    refine Raft.map_comm (map f) (Raft.map_electionTimeout f (m.rafts i)) fun r => ?_
    rw [← map_send, ← map_setRaft]
    rfl
  | heartbeatTimeout i =>
    exact Raft.map_comm (map f) (Raft.map_heartbeatTimeout f (m.rafts i)) (map_send f m i)
  | start i command =>
    refine Raft.map_comm (map f) (Raft.map_start f (m.rafts i) command) fun r => ?_
    rw [← map_send, ← map_setRaft]
    rfl
  | drop k =>
    have hlen : (m.map f).net.length = m.net.length := List.length_map ..
    dsimp only [step]
    rw [hlen, map_take]
    exact Raft.ite_comm (Option.map _) rfl rfl
  | deliver k =>
    have hget : (m.map f).net[k]? = m.net[k]?.map (Parcel.map f) := List.getElem?_map ..
    dsimp only [step]
    rw [hget, Option.bind_map]
    refine Raft.bind_comm _ _ fun p => ?_
    rw [Function.comp_apply, map_take]
    exact map_receive f _ p

variable {f m}

lemma heeds_map {H : Raft n C τ → ApplyEntriesArgs n C → Prop} {e : MeshEvent n C} :
    (m.map f).Heeds H e ↔ m.Heeds (fun rf args => H (rf.map f) args) e := by
  have hget : ∀ k, (m.map f).net[k]? = m.net[k]?.map (Parcel.map f) := fun k => List.getElem?_map ..
  constructor
  · intro h k p args he hp hr
    refine h k (p.map f) args he ?_ ?_
    · rw [hget, hp]
      rfl
    · exact congrArg (Rpc.map f) hr
  · intro h k q args he hq hr
    rw [hget] at hq
    obtain ⟨p, hp, rfl⟩ := Option.map_eq_some_iff.1 hq
    refine h k p args he hp ?_
    obtain ⟨caller, callee, epoch, rpc⟩ := p
    cases rpc <;> cases hr
    rfl

end Mesh

/-! ### The mesh of a cluster -/

def Packet.toParcel (p : Packet n C) : Parcel n C (List C) := ⟨p.caller, p.callee, p.epoch, p.rpc⟩

def Parcel.toPacket (p : Parcel n C (List C)) : Packet n C := ⟨p.caller, p.callee, p.epoch, p.rpc⟩

/-- The step of a cluster that a step of its mesh is. -/
def MeshEvent.toEvent : MeshEvent n C → Event n C
  | .electionTimeout i => .electionTimeout i
  | .heartbeatTimeout i => .heartbeatTimeout i
  | .start i command => .start i command
  | .drop k => .drop k
  | .deliver k => .deliver k

namespace Cluster

def mesh (s : Cluster n C) : Mesh n C (List C) :=
  ⟨s.raft, fun i => (s.nodes i).epoch, s.net.map Packet.toParcel⟩

/-- The services of `s` on top of another mesh. -/
def withMesh (s : Cluster n C) (m : Mesh n C (List C)) : Cluster n C :=
  ⟨fun i => { s.nodes i with raft := m.rafts i, epoch := m.epochs i }, m.net.map Parcel.toPacket⟩

variable (s : Cluster n C) (m : Mesh n C (List C))

lemma withMesh_mesh : s.withMesh s.mesh = s := by
  obtain ⟨nodes, net⟩ := s
  refine congrArg (Cluster.mk nodes) ?_
  show (net.map Packet.toParcel).map Parcel.toPacket = net
  rw [List.map_map]
  exact List.map_id' net

lemma mesh_withMesh : (s.withMesh m).mesh = m := by
  obtain ⟨rafts, epochs, net⟩ := m
  refine congrArg (Mesh.mk rafts epochs) ?_
  show (net.map Parcel.toPacket).map Packet.toParcel = net
  rw [List.map_map]
  exact List.map_id' net

lemma withMesh_setRaft (i : Fin n) (rf : Raft n C (List C)) :
    (s.withMesh m).setRaft i rf = s.withMesh (m.setRaft i rf) := by
  unfold withMesh setRaft setNode Mesh.setRaft
  congr 1
  funext j
  by_cases h : j = i
  · subst h
    simp
  · simp [h]

lemma withMesh_send (i : Fin n) (calls : List (Fin n × Rpc n C (List C))) :
    (s.withMesh m).send i calls = s.withMesh (m.send i calls) := by
  simp [withMesh, send, Mesh.send, Parcel.toPacket]

lemma withMesh_answer (p : Parcel n C (List C)) (reply : Rpc n C (List C)) :
    (s.withMesh m).answer p.toPacket reply = s.withMesh (m.answer p reply) := by
  simp [withMesh, answer, Mesh.answer, Parcel.toPacket]

lemma withMesh_take (k : ℕ) :
    (⟨(s.withMesh m).nodes, (s.withMesh m).net.eraseIdx k⟩ : Cluster n C) = s.withMesh (m.take k) := by
  simp [withMesh, Mesh.take, List.eraseIdx_map]

lemma withMesh_receive (p : Parcel n C (List C)) :
    (s.withMesh m).receive p.toPacket = (m.receive p).map s.withMesh := by
  obtain ⟨caller, callee, epoch, rpc⟩ := p
  cases rpc with
  | requestVote args =>
    refine Raft.map_comm s.withMesh Option.map_id_apply.symm fun r => ?_
    rw [← withMesh_answer, ← withMesh_setRaft]
    rfl
  | applyEntries args =>
    refine Raft.map_comm s.withMesh Option.map_id_apply.symm fun r => ?_
    rw [← withMesh_answer, ← withMesh_setRaft]
    rfl
  | installSnapshot args =>
    refine congrArg some ?_
    rw [← withMesh_answer, ← withMesh_setRaft]
    rfl
  | requestVoteReply args reply log =>
    exact Raft.ite_comm (Option.map _) (congrArg some (withMesh_setRaft s m caller _)) rfl
  | applyEntriesReply args reply log =>
    refine Raft.ite_comm (Option.map _) ?_ rfl
    exact Raft.map_comm s.withMesh Option.map_id_apply.symm (withMesh_setRaft s m caller)
  | installSnapshotReply args reply log =>
    exact Raft.ite_comm (Option.map _) (congrArg some (withMesh_setRaft s m caller _)) rfl

/-- **A step of the mesh is a step of the cluster.** -/
theorem withMesh_step (e : MeshEvent n C) :
    (s.withMesh m).step e.toEvent = (m.step e).map s.withMesh := by
  cases e with
  | electionTimeout i =>
    refine Raft.map_comm s.withMesh Option.map_id_apply.symm fun r => ?_
    rw [← withMesh_send, ← withMesh_setRaft]
    rfl
  | heartbeatTimeout i =>
    exact Raft.map_comm s.withMesh Option.map_id_apply.symm (withMesh_send s m i)
  | start i command =>
    refine Raft.map_comm s.withMesh Option.map_id_apply.symm fun r => ?_
    rw [← withMesh_send, ← withMesh_setRaft]
    rfl
  | drop k =>
    have hlen : (s.withMesh m).net.length = m.net.length := List.length_map ..
    dsimp only [MeshEvent.toEvent, step, Mesh.step]
    rw [hlen, withMesh_take]
    exact Raft.ite_comm (Option.map _) rfl rfl
  | deliver k =>
    have hget : (s.withMesh m).net[k]? = m.net[k]?.map Parcel.toPacket := List.getElem?_map ..
    dsimp only [MeshEvent.toEvent, step, Mesh.step]
    rw [hget, Option.bind_map]
    refine Raft.bind_comm _ _ fun p => ?_
    rw [Function.comp_apply, withMesh_take]
    exact withMesh_receive s _ p

variable {s m}

lemma heeds_withMesh {H : Raft n C (List C) → ApplyEntriesArgs n C → Prop} {e : MeshEvent n C}
    (h : m.Heeds H e) : (s.withMesh m).Heeds H e.toEvent := by
  intro k q args he hq hr
  have hget : (s.withMesh m).net[k]? = m.net[k]?.map Parcel.toPacket := List.getElem?_map ..
  rw [hget] at hq
  obtain ⟨p, hp, rfl⟩ := Option.map_eq_some_iff.1 hq
  cases e <;> cases he
  exact h k p args rfl hp hr

end Cluster

end RaftLabs
