import RaftLabs.Raft.Cluster
import RaftLabs.Raft.Log

/-!
# What a step of the cluster can do

Every step of the cluster is the turn of one server: it takes at most one packet off the network,
changes its own state and puts packets on the network.  `Turn` lists the turns, `Cluster.step_turn`
is the inversion of `Cluster.step`, and `Turn.ballot` says that a turn takes the server's ballot one
step further.

`H` restricts the `ApplyEntries` that a server may be sent; runs without restriction have
`H := Unrestricted`.
-/

set_option linter.unusedSectionVars false

namespace RaftLabs

open Lib

variable {n : ℕ} {C : Type} [Inhabited C]

/-- The packets of the calls that server `i` makes. -/
def packets (i : Fin n) (epoch : ℕ) (calls : List (Fin n × Rpc n C (List C))) :
    List (Packet n C) :=
  calls.map fun c => ⟨i, c.1, epoch, c.2⟩

lemma mem_packets {i : Fin n} {epoch : ℕ} {calls : List (Fin n × Rpc n C (List C))}
    {p : Packet n C} : p ∈ packets i epoch calls ↔ ∃ c ∈ calls, p = ⟨i, c.1, epoch, c.2⟩ := by
  unfold packets
  rw [List.mem_map]
  exact ⟨fun ⟨c, hc, h⟩ => ⟨c, hc, h.symm⟩, fun ⟨c, hc, h⟩ => ⟨c, hc, h.symm⟩⟩

/-- A turn of server `i`: its state before and after, the packet it takes and those it sends. -/
inductive Turn (H : Raft n C (List C) → ApplyEntriesArgs n C → Prop) (i : Fin n)
    (node : Node n C) : Node n C → Option (Packet n C) → List (Packet n C) → Prop
  | electionTimeout {rf : Raft n C (List C)} {calls : List (Fin n × Rpc n C (List C))}
      (h : node.raft.electionTimeout = some (rf, calls)) :
      Turn H i node { node with raft := rf } none (packets i node.epoch calls)
  | heartbeatTimeout {calls : List (Fin n × Rpc n C (List C))}
      (h : node.raft.heartbeatTimeout = some calls) :
      Turn H i node node none (packets i node.epoch calls)
  | start {command : C} {rf : Raft n C (List C)} {res : Option (ℕ × ℕ)}
      {calls : List (Fin n × Rpc n C (List C))}
      (h : node.raft.start command = some (rf, res, calls)) :
      Turn H i node { node with raft := rf } none (packets i node.epoch calls)
  | snapshot {index : ℕ} (h₁ : 1 ≤ index) (h₂ : index ≤ node.applied.length) :
      Turn H i node { node with
        raft := node.raft.callSnapshot index ⟨index, node.applied.take index, []⟩ } none []
  | applyLog {rf : Raft n C (List C)} {batch : List (ApplyMsg C (List C))}
      (hb : node.batch = []) (h : node.raft.applyLog = some (rf, batch)) :
      Turn H i node { node with raft := rf, batch := batch } none []
  | applyMsg {msg : ApplyMsg C (List C)} {batch : List (ApplyMsg C (List C))}
      (h : node.batch = msg :: batch) :
      Turn H i node ({ node with batch := batch }.take msg) none []
  | crash : Turn H i node node.restart none []
  | lost {p : Packet n C} : Turn H i node node (some p) []
  | requestVote {p : Packet n C} {args : RequestVoteArgs n} {rf : Raft n C (List C)}
      {reply : RequestVoteReply} (hp : p.callee = i) (hr : p.rpc = .requestVote args)
      (h : node.raft.requestVote args = some (rf, reply)) :
      Turn H i node { node with raft := rf } (some p)
        [{ p with rpc := .requestVoteReply args reply rf.logical }]
  | applyEntries {p : Packet n C} {args : ApplyEntriesArgs n C} {rf : Raft n C (List C)}
      {reply : ApplyEntriesReply} (hp : p.callee = i) (hr : p.rpc = .applyEntries args)
      (hH : H node.raft args) (h : node.raft.applyEntries args = some (rf, reply)) :
      Turn H i node { node with raft := rf } (some p)
        [{ p with rpc := .applyEntriesReply args reply rf.logical }]
  | installSnapshot {p : Packet n C} {args : InstallSnapshotArgs n C (List C)}
      {rf : Raft n C (List C)} {reply : InstallSnapshotReply}
      (hp : p.callee = i) (hr : p.rpc = .installSnapshot args)
      (h : node.raft.installSnapshot args = (rf, reply)) :
      Turn H i node { node with raft := rf } (some p)
        [{ p with rpc := .installSnapshotReply args reply rf.logical }]
  | requestVoteReply {p : Packet n C} {args : RequestVoteArgs n} {reply : RequestVoteReply}
      {log : List (LogEntry C)} (hp : p.caller = i) (hr : p.rpc = .requestVoteReply args reply log)
      (he : p.epoch = node.epoch) :
      Turn H i node { node with raft := node.raft.requestVoteReply args reply } (some p) []
  | applyEntriesReply {p : Packet n C} {args : ApplyEntriesArgs n C} {reply : ApplyEntriesReply}
      {log : List (LogEntry C)} {rf : Raft n C (List C)} (hp : p.caller = i)
      (hr : p.rpc = .applyEntriesReply args reply log) (he : p.epoch = node.epoch)
      (h : node.raft.sendApplyEntriesTo p.callee args reply = some rf) :
      Turn H i node { node with raft := rf } (some p) []
  | installSnapshotReply {p : Packet n C} {args : InstallSnapshotArgs n C (List C)}
      {reply : InstallSnapshotReply} {log : List (LogEntry C)} (hp : p.caller = i)
      (hr : p.rpc = .installSnapshotReply args reply log) (he : p.epoch = node.epoch) :
      Turn H i node { node with raft := node.raft.sendInstallSnapshotTo p.callee args reply }
        (some p) []

/-- No restriction on the `ApplyEntries` in a run. -/
def Unrestricted (_ : Raft n C (List C)) (_ : ApplyEntriesArgs n C) : Prop := True

namespace Cluster

/-- The step does not deliver an `ApplyEntries` that `H` rules out. -/
def Heeds (H : Raft n C (List C) → ApplyEntriesArgs n C → Prop) (s : Cluster n C)
    (e : Event n C) : Prop :=
  ∀ k p args, e = .deliver k → s.net[k]? = some p → p.rpc = .applyEntries args →
    H (s.raft p.callee) args

/-- The `ApplyEntries` that an event delivers, and to whom. -/
def deliversEntries (s : Cluster n C) : Event n C → Option (Fin n × ApplyEntriesArgs n C)
  | .deliver k => s.net[k]?.bind fun p =>
      match p.rpc with
      | .applyEntries args => some (p.callee, args)
      | _ => none
  | _ => none

lemma heeds_iff {H : Raft n C (List C) → ApplyEntriesArgs n C → Prop} {s : Cluster n C}
    {e : Event n C} : s.Heeds H e ↔ ∀ a ∈ s.deliversEntries e, H (s.raft a.1) a.2 := by
  constructor
  · intro h a ha
    cases e with
    | deliver k =>
      obtain ⟨p, hp, ha⟩ := Option.bind_eq_some_iff.1 ha
      split at ha
      · rename_i hr
        cases ha
        exact h k p _ rfl hp hr
      · cases ha
    | _ => cases ha
  · rintro h k p args rfl hp hr
    refine h (p.callee, args) ?_
    simp [deliversEntries, hp, hr]

instance {H : Raft n C (List C) → ApplyEntriesArgs n C → Prop} [∀ rf args, Decidable (H rf args)]
    (s : Cluster n C) (e : Event n C) : Decidable (s.Heeds H e) := decidable_of_iff _ heeds_iff.symm

lemma heeds_unrestricted (s : Cluster n C) (e : Event n C) : s.Heeds Unrestricted e :=
  fun _ _ _ _ _ _ => trivial

/-- How the turn of server `i` changes the cluster. -/
structure Moved (s s' : Cluster n C) (i : Fin n) (node : Node n C) (got : Option (Packet n C))
    (sent : List (Packet n C)) : Prop where
  nodes : s'.nodes = Function.update s.nodes i node
  net : ∃ rest, s.net.Perm (got.toList ++ rest) ∧ s'.net = rest ++ sent

variable {H : Raft n C (List C) → ApplyEntriesArgs n C → Prop} {s s' : Cluster n C}
  {e : Event n C}

section Moved

variable {i j : Fin n} {node : Node n C} {got : Option (Packet n C)} {sent : List (Packet n C)}

lemma Moved.self (h : s.Moved s' i node got sent) : s'.nodes i = node := by
  rw [h.nodes, Function.update_self]

lemma Moved.other (h : s.Moved s' i node got sent) (hj : j ≠ i) : s'.nodes j = s.nodes j := by
  rw [h.nodes, Function.update_of_ne hj]

lemma Moved.raft_self (h : s.Moved s' i node got sent) : s'.raft i = node.raft :=
  congrArg Node.raft h.self

lemma Moved.raft_other (h : s.Moved s' i node got sent) (hj : j ≠ i) : s'.raft j = s.raft j :=
  congrArg Node.raft (h.other hj)

/-- What holds of the server that moves and of all others holds of every server. -/
lemma Moved.forall_nodes (h : s.Moved s' i node got sent) {P : Fin n → Node n C → Prop}
    (hself : P i node) (hother : ∀ j ≠ i, P j (s.nodes j)) (j : Fin n) : P j (s'.nodes j) := by
  by_cases hij : j = i
  · subst hij
    rw [h.self]
    exact hself
  · rw [h.other hij]
    exact hother j hij

lemma Moved.mem_got {p : Packet n C} (h : s.Moved s' i node (some p) sent) : p ∈ s.net := by
  obtain ⟨rest, hperm, -⟩ := h.net
  exact hperm.mem_iff.2 (by simp)

/-- A packet on the network after a turn was there before or has just been sent. -/
lemma Moved.mem_net (h : s.Moved s' i node got sent) {p : Packet n C} (hp : p ∈ s'.net) :
    p ∈ s.net ∨ p ∈ sent := by
  obtain ⟨rest, hperm, hnet⟩ := h.net
  rw [hnet] at hp
  rcases List.mem_append.1 hp with hp | hp
  · exact Or.inl (hperm.mem_iff.2 (List.mem_append_right _ hp))
  · exact Or.inr hp

end Moved

lemma moved_setRaft (i : Fin n) (rf : Raft n C (List C)) :
    s.Moved (s.setRaft i rf) i { s.nodes i with raft := rf } none [] :=
  ⟨rfl, s.net, List.Perm.refl _, (List.append_nil _).symm⟩

lemma moved_send (i : Fin n) (node : Node n C) (calls : List (Fin n × Rpc n C (List C)))
    (he : node.epoch = (s.nodes i).epoch) :
    s.Moved ((s.setNode i node).send i calls) i node none (packets i (s.nodes i).epoch calls) := by
  refine ⟨rfl, s.net, List.Perm.refl _, ?_⟩
  have : ((s.setNode i node).nodes i).epoch = (s.nodes i).epoch := by
    change (Function.update s.nodes i node i).epoch = _
    rw [Function.update_self, he]
  unfold send packets
  rw [this]
  rfl

/-- **The inversion of a step**: it is the turn of one server. -/
theorem step_turn (hok : s.Heeds H e) (h : s.step e = some s') :
    ∃ i node got sent, Turn H i (s.nodes i) node got sent ∧ s.Moved s' i node got sent := by
  cases e with
  | electionTimeout i =>
    obtain ⟨⟨rf, calls⟩, hr, rfl⟩ := Option.map_eq_some_iff.1 h
    exact ⟨i, _, _, _, .electionTimeout hr, moved_send i _ calls rfl⟩
  | heartbeatTimeout i =>
    obtain ⟨calls, hr, rfl⟩ := Option.map_eq_some_iff.1 h
    refine ⟨i, _, _, _, .heartbeatTimeout hr, ?_⟩
    exact ⟨(Function.update_eq_self i s.nodes).symm, s.net, List.Perm.refl _, rfl⟩
  | start i command =>
    obtain ⟨⟨rf, res, calls⟩, hr, rfl⟩ := Option.map_eq_some_iff.1 h
    exact ⟨i, _, _, _, .start hr, moved_send i _ calls rfl⟩
  | snapshot i index =>
    dsimp only [step] at h
    split at h
    · rename_i hi
      cases h
      exact ⟨i, _, _, _, .snapshot hi.1 hi.2, moved_setRaft i _⟩
    · cases h
  | applyLog i =>
    dsimp only [step] at h
    split at h
    · rename_i hb
      obtain ⟨⟨rf, batch⟩, hr, rfl⟩ := Option.map_eq_some_iff.1 h
      exact ⟨i, _, _, _, .applyLog (List.isEmpty_iff.1 hb) hr,
        rfl, s.net, List.Perm.refl _, (List.append_nil _).symm⟩
    · cases h
  | applyMsg i =>
    dsimp only [step] at h
    split at h
    · cases h
    · rename_i msg batch hb
      cases h
      exact ⟨i, _, _, _, .applyMsg hb, rfl, s.net, List.Perm.refl _, (List.append_nil _).symm⟩
  | crash i =>
    cases h
    exact ⟨i, _, _, _, .crash, rfl, s.net, List.Perm.refl _, (List.append_nil _).symm⟩
  | drop k =>
    dsimp only [step] at h
    split at h
    · rename_i hk
      cases h
      refine ⟨s.net[k].caller, _, some s.net[k], _, .lost, ?_⟩
      exact ⟨(Function.update_eq_self _ s.nodes).symm, s.net.eraseIdx k,
        (List.getElem_cons_eraseIdx_perm hk).symm, (List.append_nil _).symm⟩
    · cases h
  | deliver k =>
    obtain ⟨p, hp, h⟩ := Option.bind_eq_some_iff.1 h
    have hperm : s.net.Perm (p :: s.net.eraseIdx k) := by
      obtain ⟨hk, rfl⟩ := List.getElem?_eq_some_iff.1 hp
      exact (List.getElem_cons_eraseIdx_perm hk).symm
    have hmoved : ∀ (i : Fin n) (node : Node n C) (sent : List (Packet n C)),
        s.Moved ⟨Function.update s.nodes i node, s.net.eraseIdx k ++ sent⟩ i node (some p) sent :=
      fun i node sent => ⟨rfl, s.net.eraseIdx k, hperm, rfl⟩
    have hlost : s.Moved ⟨s.nodes, s.net.eraseIdx k⟩ p.caller (s.nodes p.caller) (some p) [] :=
      ⟨(Function.update_eq_self _ s.nodes).symm, s.net.eraseIdx k, hperm,
        (List.append_nil _).symm⟩
    have hset : ∀ (i : Fin n) (node : Node n C),
        s.Moved ⟨Function.update s.nodes i node, s.net.eraseIdx k⟩ i node (some p) [] := by
      intro i node
      have := hmoved i node []
      rwa [List.append_nil] at this
    unfold receive at h
    split at h
    · rename_i args hr
      obtain ⟨⟨rf, reply⟩, hv, rfl⟩ := Option.map_eq_some_iff.1 h
      exact ⟨p.callee, _, _, _, .requestVote rfl hr hv, hmoved _ _ _⟩
    · rename_i args hr
      obtain ⟨⟨rf, reply⟩, hv, rfl⟩ := Option.map_eq_some_iff.1 h
      exact ⟨p.callee, _, _, _, .applyEntries rfl hr (hok k p args rfl hp hr) hv, hmoved _ _ _⟩
    · rename_i args hr
      cases h
      exact ⟨p.callee, _, _, _, .installSnapshot rfl hr rfl, hmoved _ _ _⟩
    · rename_i args reply log hr
      split at h
      · rename_i he
        cases h
        exact ⟨p.caller, _, _, _, .requestVoteReply rfl hr he, hset _ _⟩
      · cases h
        exact ⟨p.caller, _, _, _, .lost, hlost⟩
    · rename_i args reply log hr
      split at h
      · rename_i he
        obtain ⟨rf, hv, rfl⟩ := Option.map_eq_some_iff.1 h
        exact ⟨p.caller, _, _, _, .applyEntriesReply rfl hr he hv, hset _ _⟩
      · cases h
        exact ⟨p.caller, _, _, _, .lost, hlost⟩
    · rename_i args reply log hr
      split at h
      · rename_i he
        cases h
        exact ⟨p.caller, _, _, _, .installSnapshotReply rfl hr he, hset _ _⟩
      · cases h
        exact ⟨p.caller, _, _, _, .lost, hlost⟩

end Cluster

/-! ### The server underneath a turn -/

section Server

variable {H : Raft n C (List C) → ApplyEntriesArgs n C → Prop} {i : Fin n} {node node' : Node n C}
  {got : Option (Packet n C)} {sent : List (Packet n C)}

@[simp] lemma Node.take_raft (node : Node n C) (msg : ApplyMsg C (List C)) :
    (node.take msg).raft = node.raft := by
  unfold Node.take
  split <;> rfl

@[simp] lemma Node.take_epoch (node : Node n C) (msg : ApplyMsg C (List C)) :
    (node.take msg).epoch = node.epoch := by
  unfold Node.take
  split <;> rfl

lemma Node.restart_ballot (node : Node n C) :
    node.restart.raft.ballot = node.raft.ballot.restart := Raft.ballot_make

lemma Node.restart_identity (node : Node n C) : node.restart.raft.identity = .follower :=
  congrArg Ballot.identity node.restart_ballot

/-- Seen from the Raft server a turn is nothing, one critical section, or a restart. -/
lemma Turn.raft (h : Turn H i node node' got sent) :
    node'.raft = node.raft ∨ (∃ x terms, node.raft.handle x = some (node'.raft, terms)) ∨
      node' = node.restart := by
  cases h with
  | electionTimeout h => exact Or.inr (Or.inl ⟨.electionTimeout, [], by rw [Raft.handle, h]; rfl⟩)
  | heartbeatTimeout h => exact Or.inl rfl
  | @start command rf res calls h =>
    exact Or.inr (Or.inl ⟨.start command, [], by rw [Raft.handle, h]; rfl⟩)
  | snapshot h₁ h₂ => exact Or.inr (Or.inl ⟨.callSnapshot _ _, [], rfl⟩)
  | applyLog hb h => exact Or.inr (Or.inl ⟨.applyLog, [], by rw [Raft.handle, h]; rfl⟩)
  | applyMsg h => exact Or.inl (Node.take_raft _ _)
  | crash => exact Or.inr (Or.inr rfl)
  | lost => exact Or.inl rfl
  | @requestVote p args rf reply hp hr h =>
    exact Or.inr (Or.inl ⟨.requestVote args, [reply.term], by rw [Raft.handle, h]; rfl⟩)
  | @applyEntries p args rf reply hp hr hH h =>
    exact Or.inr (Or.inl ⟨.applyEntries args, [reply.term], by rw [Raft.handle, h]; rfl⟩)
  | @installSnapshot p args rf reply hp hr h =>
    exact Or.inr (Or.inl ⟨.installSnapshot args, [reply.term], by rw [Raft.handle, h]⟩)
  | @requestVoteReply p args reply log hp hr he =>
    exact Or.inr (Or.inl ⟨.requestVoteReply args reply, [], rfl⟩)
  | @applyEntriesReply p args reply log rf hp hr he h =>
    exact Or.inr (Or.inl ⟨.applyEntriesReply p.callee args reply, [], by rw [Raft.handle, h]; rfl⟩)
  | @installSnapshotReply p args reply log hp hr he =>
    exact Or.inr (Or.inl ⟨.installSnapshotReply p.callee args reply, [], rfl⟩)

/-- A turn takes the ballot of the server one step further. -/
lemma Turn.ballot (h : Turn H i node node' got sent) :
    Ballot.Step True True True node.raft.ballot node'.raft.ballot := by
  rcases h.raft with h | ⟨x, terms, h⟩ | rfl
  · rw [h]
    exact .stay
  · exact (Raft.handle_ballot h).mono (fun _ => trivial) (fun _ => trivial) fun _ => trivial
  · rw [node.restart_ballot]
    exact .restart trivial

/-- What a turn does to the log of the server. -/
lemma Turn.store_cases (h : Turn H i node node' got sent) :
    (node'.raft.store = node.raft.store ∨ node'.raft.store = node.raft.store.save) ∨
    (∃ command, node.raft.identity = .leader ∧ node'.raft.ballot = node.raft.ballot.save ∧
      node'.raft.store = (node.raft.store.append ⟨command, node.raft.currentTerm⟩).save) ∨
    (∃ p args, got = some p ∧ p.callee = i ∧ p.rpc = .applyEntries args ∧
      node.raft.currentTerm ≤ args.term ∧ node.raft.discardCount ≤ args.prevLogIndex ∧
      (∃ e, node.raft.logs[args.prevLogIndex - node.raft.discardCount]? = some e ∧
        e.term = args.prevLogTerm) ∧
      node'.raft.ballot = (node.raft.ballot.follow args.term).save ∧
      node'.raft.store = (node.raft.store.splice args).save) ∨
    (∃ index, index ≤ node.applied.length ∧ node.raft.lastIncludedIndex < index ∧
      node'.raft.store =
        (node.raft.store.compact index ⟨index, node.applied.take index, []⟩).save) ∨
    (∃ p args, got = some p ∧ p.callee = i ∧ p.rpc = .installSnapshot args ∧
      node.raft.currentTerm ≤ args.term ∧
      node.raft.lastIncludedIndex < args.lastIncludedIndex ∧
      node'.raft.ballot = (node.raft.ballot.follow args.term).save ∧
      node'.raft.store = (node.raft.store.install args).save) ∨
    (node' = node.restart ∧ node'.raft.store = node.raft.store.restart) := by
  cases h with
  | electionTimeout h => exact Or.inl (Raft.store_electionTimeout h)
  | heartbeatTimeout h => exact Or.inl (Or.inl rfl)
  | @start command rf res calls h =>
    obtain ⟨-, rfl, -⟩ | ⟨hl, rfl, -⟩ := Raft.start_cases h
    · exact Or.inl (Or.inl rfl)
    · exact Or.inr (Or.inl ⟨command, hl, rfl, rfl⟩)
  | @snapshot index h₁ h₂ =>
    obtain ⟨-, h⟩ | ⟨hlt, h⟩ := Raft.store_callSnapshot node.raft index
      ⟨index, node.applied.take index, []⟩
    · exact Or.inl (Or.inl (congrArg Raft.store h))
    · exact Or.inr (Or.inr (Or.inr (Or.inl ⟨index, h₂, hlt, h⟩)))
  | applyLog hb h => exact Or.inl (Or.inl (Raft.store_applyLog h))
  | applyMsg h => exact Or.inl (Or.inl (congrArg Raft.store (Node.take_raft _ _)))
  | crash => exact Or.inr (Or.inr (Or.inr (Or.inr (Or.inr ⟨rfl, Raft.store_make _⟩))))
  | lost => exact Or.inl (Or.inl rfl)
  | requestVote hp hr h => exact Or.inl (Or.inr (Raft.store_requestVote h))
  | @applyEntries p args rf reply hp hr hH h =>
    obtain h' | ⟨hle, hprev, he, hf, h'⟩ := Raft.store_applyEntries h
    · exact Or.inl (Or.inr h')
    · exact Or.inr (Or.inr (Or.inl ⟨p, args, rfl, hp, hr, hle, hprev, he, hf, h'⟩))
  | @installSnapshot p args rf reply hp hr h =>
    have hs := Raft.store_installSnapshot node.raft args
    rw [h] at hs
    obtain h' | ⟨hle, hlt, hf, h'⟩ := hs
    · exact Or.inl (Or.inl h')
    · exact Or.inr (Or.inr (Or.inr (Or.inr (Or.inl ⟨p, args, rfl, hp, hr, hle, hlt, hf, h'⟩))))
  | requestVoteReply hp hr he => exact Or.inl (Raft.store_requestVoteReply _ _)
  | applyEntriesReply hp hr he h => exact Or.inl (Raft.store_sendApplyEntriesTo h)
  | installSnapshotReply hp hr he => exact Or.inl (Raft.store_sendInstallSnapshotTo _ _ _)

/-- What a turn sends: a candidate's requests for votes, with the end of its log; what `sendHeartBeat`
builds from the present state of a leader; or the answer to the packet that was taken. -/
lemma Turn.sent_cases (h : Turn H i node node' got sent) {p : Packet n C} (hp : p ∈ sent) :
    (∃ last, node'.raft.identity = .candidate ∧ p.caller = i ∧
      node'.raft.logs[node'.raft.logs.length - 1]? = some last ∧
      p.rpc = .requestVote ⟨node'.raft.currentTerm, node'.raft.me,
        node'.raft.raftIndex (node'.raft.logs.length - 1), last.term⟩) ∨
    (node'.raft.identity = .leader ∧ p.caller = i ∧ p.epoch = node'.epoch ∧
      p.callee ≠ node'.raft.me ∧ node'.raft.heartBeatTo p.callee = some p.rpc) ∨
    (∃ q args reply, got = some q ∧ q.rpc = .requestVote args ∧
      p = { q with rpc := .requestVoteReply args reply node'.raft.logical }) ∨
    (∃ q args reply, got = some q ∧ q.callee = i ∧ q.rpc = .applyEntries args ∧
      H node.raft args ∧ node.raft.applyEntries args = some (node'.raft, reply) ∧
      p = { q with rpc := .applyEntriesReply args reply node'.raft.logical }) ∨
    (∃ q args reply, got = some q ∧ q.callee = i ∧ q.rpc = .installSnapshot args ∧
      node.raft.installSnapshot args = (node'.raft, reply) ∧
      p = { q with rpc := .installSnapshotReply args reply node'.raft.logical }) := by
  have hbeat : ∀ {rf : Raft n C (List C)} {calls : List (Fin n × Rpc n C (List C))},
      rf.sendHeartBeat = some calls → p ∈ packets i node.epoch calls →
      p.caller = i ∧ p.epoch = node.epoch ∧ p.callee ≠ rf.me ∧
        rf.heartBeatTo p.callee = some p.rpc := by
    intro rf calls hcalls hp
    obtain ⟨c, hc, rfl⟩ := mem_packets.1 hp
    obtain ⟨h₁, h₂⟩ := Raft.mem_sendHeartBeat hcalls hc
    exact ⟨rfl, rfl, h₁, h₂⟩
  cases h with
  | electionTimeout h =>
    obtain ⟨-, -, rfl⟩ | ⟨-, last, hlast, rfl, rfl⟩ := Raft.electionTimeout_cases h
    · cases hp
    · obtain ⟨c, hc, rfl⟩ := mem_packets.1 hp
      obtain ⟨v, -, rfl⟩ := List.mem_map.1 hc
      exact Or.inl ⟨last, rfl, rfl, hlast, rfl⟩
  | heartbeatTimeout h =>
    obtain rfl | ⟨hl, h⟩ := Raft.heartbeatTimeout_cases h
    · cases hp
    · exact Or.inr (Or.inl ⟨hl, hbeat h hp⟩)
  | start h =>
    obtain ⟨-, -, rfl⟩ | ⟨hl, rfl, h⟩ := Raft.start_cases h
    · cases hp
    · exact Or.inr (Or.inl ⟨hl, hbeat h hp⟩)
  | requestVote hq hr h =>
    exact Or.inr (Or.inr (Or.inl ⟨_, _, _, rfl, hr, List.mem_singleton.1 hp⟩))
  | applyEntries hq hr hH h =>
    exact Or.inr (Or.inr (Or.inr (Or.inl ⟨_, _, _, rfl, hq, hr, hH, h, List.mem_singleton.1 hp⟩)))
  | installSnapshot hq hr h =>
    exact Or.inr (Or.inr (Or.inr (Or.inr ⟨_, _, _, rfl, hq, hr, h, List.mem_singleton.1 hp⟩)))
  | snapshot h₁ h₂ => cases hp
  | applyLog hb h => cases hp
  | applyMsg h => cases hp
  | crash => cases hp
  | lost => cases hp
  | requestVoteReply hq hr he => cases hp
  | applyEntriesReply hq hr he h => cases hp
  | installSnapshotReply hq hr he => cases hp

/-- An `ApplyEntries` or an `InstallSnapshot` that a turn sends is built by `sendHeartBeat`. -/
lemma Turn.sent_beat (h : Turn H i node node' got sent) {p : Packet n C} (hp : p ∈ sent)
    (hr : (∃ args, p.rpc = .applyEntries args) ∨ ∃ args, p.rpc = .installSnapshot args) :
    node'.raft.heartBeatTo p.callee = some p.rpc := by
  have hnot : ∀ {rpc : Rpc n C (List C)}, p.rpc = rpc → (∀ args, rpc ≠ .applyEntries args) →
      (∀ args, rpc ≠ .installSnapshot args) → node'.raft.heartBeatTo p.callee = some p.rpc := by
    rintro rpc rfl happ hsnap
    rcases hr with ⟨args, hr⟩ | ⟨args, hr⟩
    · exact absurd hr (happ args)
    · exact absurd hr (hsnap args)
  rcases h.sent_cases hp with ⟨_, -, -, -, h⟩ | ⟨-, -, -, -, h⟩ | ⟨_, _, _, -, -, rfl⟩ |
    ⟨_, _, _, -, -, -, -, -, rfl⟩ | ⟨_, _, _, -, -, -, -, rfl⟩
  · exact hnot h (fun _ => by simp) fun _ => by simp
  · exact h
  · exact hnot rfl (fun _ => by simp) fun _ => by simp
  · exact hnot rfl (fun _ => by simp) fun _ => by simp
  · exact hnot rfl (fun _ => by simp) fun _ => by simp

end Server

/-! ### Ballots along a run -/

namespace Cluster

variable {H : Raft n C (List C) → ApplyEntriesArgs n C → Prop} {s s' : Cluster n C}
  {past : List (Cluster n C)} {e : Event n C}

/-- The steps of the cluster under the restriction `H`. -/
abbrev Run (H : Raft n C (List C) → ApplyEntriesArgs n C → Prop) (tr : List (Cluster n C)) : Prop :=
  Trace (step (n := n) (C := C)) (Heeds H) init tr

lemma step_ballot (h : s.step e = some s') (i : Fin n) :
    Ballot.Step True True True (s.raft i).ballot (s'.raft i).ballot := by
  obtain ⟨j, node, got, sent, hturn, hmoved⟩ := step_turn (heeds_unrestricted s e) h
  by_cases hij : i = j
  · subst hij
    unfold raft
    rw [hmoved.self]
    exact hturn.ballot
  · unfold raft
    rw [hmoved.other hij]
    exact .stay

/-- Every server knows its own name and has its ballot in order. -/
lemma Run.ballot_ok (h : Run H (s :: past)) (i : Fin n) :
    (s.raft i).me = i ∧ (s.raft i).ballot.Ok := by
  refine Trace.invariant (P := fun s _ => (s.raft i).me = i ∧ (s.raft i).ballot.Ok) ?_ ?_ h
  · exact ⟨rfl, le_rfl, fun _ => rfl, fun h => absurd h (lt_irrefl _), fun h => absurd rfl h⟩
  · intro s past e s' _ hi _ hs
    have hstep := step_ballot hs i
    exact ⟨hstep.me.trans hi.1, hstep.ok hi.2⟩

/-- Of two states of a run one comes after the other. -/
lemma Run.ballot_total {tr : List (Cluster n C)} (h : Run H tr) (i : Fin n) {s₁ s₂ : Cluster n C}
    (h₁ : s₁ ∈ tr) (h₂ : s₂ ∈ tr) :
    Ballot.Le (s₁.raft i).ballot (s₂.raft i).ballot ∨
      Ballot.Le (s₂.raft i).ballot (s₁.raft i).ballot := by
  refine Trace.total (R := fun s s' => Ballot.Le (s.raft i).ballot (s'.raft i).ballot)
    (fun _ => .refl) (fun _ _ _ => .trans) ?_ h h₁ h₂
  rintro s past e s' htr - hs
  exact (step_ballot hs i).le (Run.ballot_ok htr i).2

/-- Stable storage only moves forward. -/
lemma Run.ballot_le (h : Run H (s :: past)) (i : Fin n) {s₁ : Cluster n C} (h₁ : s₁ ∈ s :: past) :
    Ballot.Le (s₁.raft i).ballot (s.raft i).ballot := by
  refine Trace.latest (R := fun s s' => Ballot.Le (s.raft i).ballot (s'.raft i).ballot)
    (fun _ => .refl) (fun _ _ _ => .trans) ?_ h h₁
  rintro s past e s' htr - hs
  exact (step_ballot hs i).le (Run.ballot_ok htr i).2

end Cluster

end RaftLabs
