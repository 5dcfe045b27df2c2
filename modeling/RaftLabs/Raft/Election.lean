import RaftLabs.Lib.LeaderLogs
import RaftLabs.Raft.Turns

/-!
# Elections

How the votes of an election travel from the voters to the candidate's counter, over a network that
delays and loses messages, with replies of old elections still in flight and servers that crash.

A *record* of votes (`Records`) is anything the run remembers about a vote from the moment it is
cast.  `Tally.quorum` says that whoever becomes leader has a majority of recorded votes behind it:
the candidate counts no reply twice, and only replies of its present election.  With the record
`Voted`, that a vote is in stable storage, this gives election safety, `Run.leader_unique`.
-/

namespace RaftLabs

open Lib

variable {n : ℕ} {C : Type} [Inhabited C]

/-- The candidate, the term and the voter of the request or reply in a packet. -/
def voteKey (p : Packet n C) : Option (Fin n × ℕ × Fin n) :=
  match p.rpc with
  | .requestVote args => some (p.caller, args.term, p.callee)
  | .requestVoteReply args _ _ => some (p.caller, args.term, p.callee)
  | _ => none

section Turns

variable {H : Raft n C (List C) → ApplyEntriesArgs n C → Prop} {i : Fin n} {node node' : Node n C}
  {got : Option (Packet n C)} {sent : List (Packet n C)}

lemma voteKey_of_sendHeartBeat {rf : Raft n C (List C)} {epoch : ℕ}
    {calls : List (Fin n × Rpc n C (List C))} (h : rf.sendHeartBeat = some calls) :
    ∀ p ∈ packets i epoch calls, voteKey p = none := by
  intro p hp
  obtain ⟨c, hc, rfl⟩ := mem_packets.1 hp
  obtain ⟨-, hc⟩ := Raft.mem_sendHeartBeat h hc
  obtain ⟨e, -, -, he⟩ | ⟨k, e, -, he⟩ := Raft.heartBeatTo_cases hc
  · simp [voteKey, he]
  · simp [voteKey, he]

/-- The four kinds of turns, as elections see them. -/
lemma Turn.vote_cases (h : Turn H i node node' got sent) :
    (∃ calls, node.raft.electionTimeout = some (node'.raft, calls) ∧ got = none ∧
      sent = packets i node.epoch calls) ∨
    (∃ p args reply, got = some p ∧ p.callee = i ∧ p.rpc = .requestVote args ∧
      node.raft.requestVote args = some (node'.raft, reply) ∧
      sent = [{ p with rpc := .requestVoteReply args reply node'.raft.logical }]) ∨
    (∃ p args reply log, got = some p ∧ p.caller = i ∧
      p.rpc = .requestVoteReply args reply log ∧ p.epoch = node.epoch ∧
      node'.raft = node.raft.requestVoteReply args reply ∧ sent = []) ∨
    (Ballot.Step True False True node.raft.ballot node'.raft.ballot ∧ ∀ p ∈ sent, voteKey p = none) := by
  have hnil : ∀ p ∈ ([] : List (Packet n C)), voteKey p = none := fun p hp => by cases hp
  cases h with
  | electionTimeout h => exact Or.inl ⟨_, h, rfl, rfl⟩
  | requestVote hp hr h => exact Or.inr (Or.inl ⟨_, _, _, rfl, hp, hr, h, rfl⟩)
  | requestVoteReply hp hr he =>
    exact Or.inr (Or.inr (Or.inl ⟨_, _, _, _, rfl, hp, hr, he, rfl, rfl⟩))
  | heartbeatTimeout h =>
    refine Or.inr (Or.inr (Or.inr ⟨.stay, ?_⟩))
    rcases Raft.heartbeatTimeout_cases h with rfl | ⟨-, h⟩
    · exact hnil
    · exact voteKey_of_sendHeartBeat h
  | start h =>
    refine Or.inr (Or.inr (Or.inr ⟨Raft.ballot_start h, ?_⟩))
    obtain ⟨-, -, rfl⟩ | ⟨-, -, hc⟩ := Raft.start_cases h
    · exact hnil
    · exact voteKey_of_sendHeartBeat hc
  | snapshot h₁ h₂ =>
    refine Or.inr (Or.inr (Or.inr ⟨?_, hnil⟩))
    obtain h | h := Raft.ballot_callSnapshot node.raft _ _
    · rw [h]
      exact .stay
    · rw [h]
      exact .save
  | applyLog hb h =>
    refine Or.inr (Or.inr (Or.inr ⟨?_, hnil⟩))
    rw [Raft.ballot_applyLog h]
    exact .stay
  | applyMsg h =>
    refine Or.inr (Or.inr (Or.inr ⟨?_, hnil⟩))
    rw [Node.take_raft]
    exact .stay
  | crash =>
    refine Or.inr (Or.inr (Or.inr ⟨?_, hnil⟩))
    rw [node.restart_ballot]
    exact .restart trivial
  | lost => exact Or.inr (Or.inr (Or.inr ⟨.stay, hnil⟩))
  | applyEntries hp hr hH h =>
    refine Or.inr (Or.inr (Or.inr ⟨Raft.ballot_applyEntries h, ?_⟩))
    simp [voteKey]
  | @installSnapshot p args rf reply hp hr h =>
    refine Or.inr (Or.inr (Or.inr ⟨?_, by simp [voteKey]⟩))
    have hstep : Ballot.Step _ False True _ _ := Raft.ballot_installSnapshot node.raft args
    rw [h] at hstep
    exact hstep.mono (fun _ => trivial) id id
  | applyEntriesReply hp hr he h =>
    exact Or.inr (Or.inr (Or.inr ⟨Raft.ballot_sendApplyEntriesTo h, hnil⟩))
  | installSnapshotReply hp hr he =>
    exact Or.inr (Or.inr (Or.inr ⟨Raft.ballot_sendInstallSnapshotTo _ _ _, hnil⟩))

end Turns

namespace Cluster

variable {H : Raft n C (List C) → ApplyEntriesArgs n C → Prop}
  {W : List (Cluster n C) → Fin n → ℕ → Fin n → Prop} {s s' : Cluster n C}
  {past : List (Cluster n C)}

/-! ### Counting votes -/

/-- `W tr v t c` is a record, in the run `tr`, of the vote of `v` for `c` in term `t`.  In the step
from `s` to `s'` it is made when a candidate votes for itself or a server grants a vote, and kept. -/
structure Records (W : List (Cluster n C) → Fin n → ℕ → Fin n → Prop) (s s' : Cluster n C)
    (past : List (Cluster n C)) : Prop where
  mono : ∀ {v t c}, W (s :: past) v t c → W (s' :: s :: past) v t c
  stand : ∀ {i calls}, (s.raft i).identity ≠ .leader →
    (s.raft i).electionTimeout = some (s'.raft i, calls) →
    W (s' :: s :: past) i (s'.raft i).currentTerm i
  grant : ∀ {p args reply}, p ∈ s.net → p.rpc = .requestVote args →
    (s.raft p.callee).requestVote args = some (s'.raft p.callee, reply) →
    reply.voteGranted = true → args.candidateId = p.caller →
    W (s' :: s :: past) p.callee args.term p.caller

/-- The votes of all elections: on their way and counted. -/
structure Tally (W : List (Cluster n C) → Fin n → ℕ → Fin n → Prop) (s : Cluster n C)
    (past : List (Cluster n C)) : Prop where
  nodup : (s.net.filterMap voteKey).Nodup
  sent : ∀ p ∈ s.net, ∀ c t v, voteKey p = some (c, t, v) → t ≤ (s.raft c).stableTerm
  request : ∀ p ∈ s.net, ∀ args, p.rpc = .requestVote args →
    args.candidateId = p.caller ∧ p.callee ≠ p.caller
  granted : ∀ p ∈ s.net, ∀ args reply log, p.rpc = .requestVoteReply args reply log →
    reply.voteGranted = true → reply.term = args.term ∧ W (s :: past) p.callee args.term p.caller
  counted : ∀ i, (s.raft i).identity = .candidate → ∃ S : Finset (Fin n),
    S.card = (s.raft i).votes (s.raft i).currentTerm ∧
    (∀ v ∈ S, W (s :: past) v (s.raft i).currentTerm i) ∧
    ∀ p ∈ s.net, ∀ v, voteKey p = some (i, (s.raft i).currentTerm, v) → v ∉ S

/-- The requests of a candidate for the votes of all other servers. -/
def requests (i : Fin n) (epoch : ℕ) (args : RequestVoteArgs n) : List (Packet n C) :=
  packets i epoch (((List.finRange n).filter (· ≠ i)).map fun v => (v, .requestVote args))

section Requests

variable {i : Fin n} {epoch : ℕ} {args : RequestVoteArgs n}

lemma mem_requests {p : Packet n C} (hp : p ∈ requests i epoch args) :
    p.rpc = .requestVote args ∧ p.caller = i ∧ p.callee ≠ i ∧
      voteKey p = some (i, args.term, p.callee) := by
  obtain ⟨c, hc, rfl⟩ := mem_packets.1 hp
  obtain ⟨v, hv, rfl⟩ := List.mem_map.1 hc
  exact ⟨rfl, rfl, by simpa using hv, rfl⟩

omit [Inhabited C] in
/-- They go to different servers. -/
lemma nodup_requests : ((requests i epoch args : List (Packet n C)).filterMap voteKey).Nodup := by
  have hkeys : (requests i epoch args : List (Packet n C)).filterMap voteKey =
      ((List.finRange n).filter (· ≠ i)).map fun v => (i, args.term, v) := by
    unfold requests packets
    rw [List.map_map, List.filterMap_map]
    exact congrFun (List.filterMap_eq_map (f := fun v => (i, args.term, v))) _
  rw [hkeys]
  refine List.Nodup.map (fun v w hvw => ?_) ((List.nodup_finRange n).filter _)
  exact (Prod.ext_iff.1 (Prod.ext_iff.1 hvw).2).2

end Requests

lemma tally_init : Tally W (init : Cluster n C) [] where
  nodup := List.nodup_nil
  sent p hp := by cases hp
  request p hp := by cases hp
  granted p hp := by cases hp
  counted i hi := by cases hi

section Step

variable {i : Fin n} {node : Node n C} {got : Option (Packet n C)} {sent : List (Packet n C)}

omit [Inhabited C] in
lemma nodup_keys (hn : (s.net.filterMap voteKey).Nodup) (hm : s.Moved s' i node got sent)
    (hk : sent.filterMap voteKey = [] ∨
      sent.filterMap voteKey = got.toList.filterMap voteKey) :
    (s'.net.filterMap voteKey).Nodup := by
  obtain ⟨rest, hperm, hnet⟩ := hm.net
  have hn' := (hperm.filterMap voteKey).nodup_iff.1 hn
  rw [List.filterMap_append] at hn'
  rw [hnet, List.filterMap_append]
  rcases hk with hk | hk
  · rw [hk, List.append_nil]
    exact (List.nodup_append.1 hn').2.1
  · rw [hk]
    exact List.perm_append_comm.nodup_iff.1 hn'

/-- A turn that keeps the elections of every candidate as they are keeps the tally, provided what it
sends is in order. -/
lemma Tally.of_moved (hW : Records W s s' past) (ht : Tally W s past)
    (hm : s.Moved s' i node got sent)
    (hcand : node.raft.identity = .candidate → (s.raft i).identity = .candidate ∧
      node.raft.currentTerm = (s.raft i).currentTerm ∧ node.raft.votes = (s.raft i).votes)
    (hst : ∀ j, (s.raft j).stableTerm ≤ (s'.raft j).stableTerm)
    (hnodup : (s'.net.filterMap voteKey).Nodup)
    (hkey : ∀ p ∈ sent, ∀ k, voteKey p = some k → ∃ q ∈ s.net, voteKey q = some k)
    (hreq : ∀ p ∈ sent, ∀ args, p.rpc ≠ .requestVote args)
    (hgr : ∀ p ∈ sent, ∀ args reply log, p.rpc = .requestVoteReply args reply log →
      reply.voteGranted = true →
      reply.term = args.term ∧ W (s' :: s :: past) p.callee args.term p.caller) :
    Tally W s' (s :: past) := by
  have hkeys : ∀ p ∈ s'.net, ∀ k, voteKey p = some k → ∃ q ∈ s.net, voteKey q = some k := by
    intro p hp k hk
    rcases hm.mem_net hp with hp | hp
    · exact ⟨p, hp, hk⟩
    · exact hkey p hp k hk
  refine ⟨hnodup, ?_, ?_, ?_, ?_⟩
  · intro p hp c t v hk
    obtain ⟨q, hq, hqk⟩ := hkeys p hp _ hk
    exact (ht.sent q hq c t v hqk).trans (hst c)
  · intro p hp args hr
    rcases hm.mem_net hp with hp | hp
    · exact ht.request p hp args hr
    · exact absurd hr (hreq p hp args)
  · intro p hp args reply log hr hv
    rcases hm.mem_net hp with hp | hp
    · obtain ⟨h₁, h₂⟩ := ht.granted p hp args reply log hr hv
      exact ⟨h₁, hW.mono h₂⟩
    · exact hgr p hp args reply log hr hv
  · intro j hj
    have hold : (s.raft j).identity = .candidate ∧
        (s'.raft j).currentTerm = (s.raft j).currentTerm ∧
        (s'.raft j).votes = (s.raft j).votes := by
      by_cases hij : j = i
      · subst hij
        rw [hm.raft_self] at hj ⊢
        exact hcand hj
      · rw [hm.raft_other hij] at hj ⊢
        exact ⟨hj, rfl, rfl⟩
    obtain ⟨hc, hterm, hvotes⟩ := hold
    obtain ⟨S, hcard, hS, hnet⟩ := ht.counted j hc
    rw [hterm, hvotes]
    refine ⟨S, hcard, fun v hv => hW.mono (hS v hv), fun p hp v hk => ?_⟩
    obtain ⟨q, hq, hqk⟩ := hkeys p hp _ hk
    exact hnet q hq v hqk

/-- The votes of the other candidates, when nothing is sent that is about their elections. -/
lemma Tally.counted_other (hW : Records W s s' past) (ht : Tally W s past)
    (hm : s.Moved s' i node got sent) {j : Fin n} (hij : j ≠ i)
    (hkey : ∀ p ∈ sent, ∀ t v, voteKey p ≠ some (j, t, v))
    (hj : (s'.raft j).identity = .candidate) : ∃ S : Finset (Fin n),
      S.card = (s'.raft j).votes (s'.raft j).currentTerm ∧
      (∀ v ∈ S, W (s' :: s :: past) v (s'.raft j).currentTerm j) ∧
      ∀ p ∈ s'.net, ∀ v, voteKey p = some (j, (s'.raft j).currentTerm, v) → v ∉ S := by
  rw [hm.raft_other hij] at hj ⊢
  obtain ⟨S, hcard, hS, hnet⟩ := ht.counted j hj
  refine ⟨S, hcard, fun v hv => hW.mono (hS v hv), fun p hp v hk => ?_⟩
  rcases hm.mem_net hp with hp | hp
  · exact hnet p hp v hk
  · exact absurd hk (hkey p hp _ v)

/-- A candidate has voted for itself, and has asked the others. -/
lemma Tally.stood (hW : Records W s s' past) (htr : Run H (s' :: s :: past)) (ht : Tally W s past)
    {epoch : ℕ} {args : RequestVoteArgs n} (hm : s.Moved s' i node none (requests i epoch args))
    (hcand : args.candidateId = i) (hterm : args.term = (s.raft i).currentTerm + 1)
    (hnode : (s'.raft i).currentTerm = args.term) (hstable : (s'.raft i).stableTerm = args.term)
    (hvotes : (s'.raft i).votes args.term = 1) (hown : W (s' :: s :: past) i args.term i) :
    Tally W s' (s :: past) := by
  have hst : ∀ j, (s.raft j).stableTerm ≤ (s'.raft j).stableTerm := fun j =>
    (Run.ballot_le htr j (List.mem_cons_of_mem _ List.mem_cons_self)).1
  -- no packet is about the new term
  have hold : ∀ p ∈ s.net, ∀ v, voteKey p ≠ some (i, args.term, v) := by
    intro p hp v hk
    have h₁ := ht.sent p hp _ _ _ hk
    have h₂ : (s.raft i).stableTerm ≤ (s.raft i).currentTerm := (Run.ballot_ok htr.tail i).2.le
    omega
  refine ⟨?_, ?_, ?_, ?_, ?_⟩
  · obtain ⟨rest, hperm, hnet⟩ := hm.net
    rw [hnet, List.filterMap_append]
    refine List.nodup_append.2 ⟨(hperm.filterMap voteKey).nodup_iff.1 ht.nodup, nodup_requests, ?_⟩
    intro k hk k' hk' hkk
    obtain ⟨p, hp, hpk⟩ := List.mem_filterMap.1 hk
    obtain ⟨q, hq, hqk⟩ := List.mem_filterMap.1 hk'
    obtain ⟨-, -, -, hkey⟩ := mem_requests hq
    exact hold p (hperm.mem_iff.2 hp) q.callee (hpk.trans (hkk ▸ hqk.symm.trans hkey))
  · intro p hp c t v hk
    rcases hm.mem_net hp with hp | hp
    · exact (ht.sent p hp c t v hk).trans (hst c)
    · obtain ⟨-, -, -, hkey⟩ := mem_requests hp
      cases hk.symm.trans hkey
      exact hstable.ge
  · intro p hp args' hr
    rcases hm.mem_net hp with hp | hp
    · exact ht.request p hp args' hr
    · obtain ⟨hr', hcaller, hcallee, -⟩ := mem_requests hp
      cases hr.symm.trans hr'
      rw [hcaller]
      exact ⟨hcand, hcallee⟩
  · intro p hp args' reply log hr hv
    rcases hm.mem_net hp with hp | hp
    · obtain ⟨h₁, h₂⟩ := ht.granted p hp args' reply log hr hv
      exact ⟨h₁, hW.mono h₂⟩
    · obtain ⟨hr', -⟩ := mem_requests hp
      cases hr.symm.trans hr'
  · intro j hj
    by_cases hij : j = i
    · subst hij
      rw [hnode]
      refine ⟨{j}, by rw [hvotes, Finset.card_singleton], ?_, ?_⟩
      · intro v hv
        rw [Finset.mem_singleton.1 hv]
        exact hown
      · intro p hp v hk
        rcases hm.mem_net hp with hp | hp
        · exact absurd hk (hold p hp v)
        · obtain ⟨-, -, hcallee, hkey⟩ := mem_requests hp
          cases hk.symm.trans hkey
          simpa using hcallee
    · refine ht.counted_other hW hm hij (fun p hp t v hk => ?_) hj
      obtain ⟨-, -, -, hkey⟩ := mem_requests hp
      exact hij (Prod.mk.inj (Option.some.inj (hk.symm.trans hkey))).1

/-- A new election: the candidate counts its own vote and asks the others. -/
lemma Tally.stand (hW : Records W s s' past) (htr : Run H (s' :: s :: past)) (ht : Tally W s past)
    {calls : List (Fin n × Rpc n C (List C))}
    (hm : s.Moved s' i node none (packets i (s.nodes i).epoch calls))
    (h : (s.raft i).electionTimeout = some (node.raft, calls)) : Tally W s' (s :: past) := by
  have hself : s'.raft i = node.raft := hm.raft_self
  have hme : (s.raft i).me = i := (Run.ballot_ok htr.tail i).1
  have hst : ∀ j, (s.raft j).stableTerm ≤ (s'.raft j).stableTerm := fun j =>
    (Run.ballot_le htr j (List.mem_cons_of_mem _ List.mem_cons_self)).1
  obtain ⟨hl, heq, rfl⟩ | ⟨hl, last, -, heq, hcalls⟩ := Raft.electionTimeout_cases h
  · -- a leader ignores the timer
    refine ht.of_moved hW hm (fun hc => ?_) hst (nodup_keys ht.nodup hm (Or.inl rfl)) ?_ ?_ ?_
    · rw [heq] at hc ⊢
      exact ⟨hc, rfl, rfl⟩
    all_goals
      intro p hp
      cases hp
  · have hterm : (s'.raft i).currentTerm = (s.raft i).currentTerm + 1 := by
      rw [hself, heq]
      rfl
    have hown := hW.stand hl (hself ▸ h)
    rw [hterm] at hown
    rw [hcalls, hme] at hm
    refine ht.stood hW htr hm rfl rfl hterm ?_ ?_ hown
    · rw [hself, heq]
      rfl
    · rw [hself, heq]
      exact Function.update_self _ _ _

/-- A server answers a request for its vote. -/
lemma Tally.vote (hW : Records W s s' past) (htr : Run H (s' :: s :: past)) (ht : Tally W s past)
    {p : Packet n C} {args : RequestVoteArgs n} {reply : RequestVoteReply}
    (hm : s.Moved s' p.callee node (some p)
      [{ p with rpc := .requestVoteReply args reply node.raft.logical }])
    (hr : p.rpc = .requestVote args)
    (h : (s.raft p.callee).requestVote args = some (node.raft, reply)) :
    Tally W s' (s :: past) := by
  have hself : s'.raft p.callee = node.raft := hm.raft_self
  have hkey : voteKey p = some (p.caller, args.term, p.callee) := by simp [voteKey, hr]
  have hst : ∀ j, (s.raft j).stableTerm ≤ (s'.raft j).stableTerm := fun j =>
    (Run.ballot_le htr j (List.mem_cons_of_mem _ List.mem_cons_self)).1
  have hb : Ballot.Step True False True _ _ := Raft.ballot_requestVote h
  refine ht.of_moved hW hm hb.candidate hst (nodup_keys ht.nodup hm (Or.inr ?_)) ?_ ?_ ?_
  · simp [voteKey, hr]
  · intro q hq k hk
    rw [List.mem_singleton.1 hq] at hk
    exact ⟨p, hm.mem_got, hkey.trans hk⟩
  · intro q hq args'
    rw [List.mem_singleton.1 hq]
    simp
  · intro q hq args' reply' log' hr' hv
    rw [List.mem_singleton.1 hq] at hr' ⊢
    cases hr'
    refine ⟨?_, hW.grant (p := p) hm.mem_got hr (hself ▸ h) hv (ht.request p hm.mem_got _ hr).1⟩
    obtain ⟨-, rfl⟩ | ⟨-, -, last, -, ⟨-, rfl⟩ | ⟨-, rfl, -⟩⟩ := Raft.requestVote_cases h
    · cases hv
    · cases hv
    · rfl

omit [Inhabited C] in
/-- A reply to the candidate's present election is from a server it has not counted yet. -/
lemma Tally.fresh (ht : Tally W s past) {p : Packet n C} {args : RequestVoteArgs n}
    {reply : RequestVoteReply} {log : List (LogEntry C)} (hp : p ∈ s.net)
    (hr : p.rpc = .requestVoteReply args reply log) (hv : reply.voteGranted = true)
    (hterm : reply.term = (s.raft p.caller).currentTerm)
    (hc : (s.raft p.caller).identity = .candidate) :
    ∃ S : Finset (Fin n), S.card = (s.raft p.caller).votes args.term + 1 ∧
      args.term = (s.raft p.caller).currentTerm ∧
      (∀ v ∈ S, W (s :: past) v (s.raft p.caller).currentTerm p.caller) ∧
      ∀ v ∈ S, v = p.callee ∨ ∀ q ∈ s.net,
        voteKey q ≠ some (p.caller, (s.raft p.caller).currentTerm, v) := by
  obtain ⟨hargs, hrec⟩ := ht.granted p hp args reply log hr hv
  have hT : args.term = (s.raft p.caller).currentTerm := hargs.symm.trans hterm
  obtain ⟨S, hcard, hS, hnet⟩ := ht.counted _ hc
  have hkey : voteKey p = some (p.caller, args.term, p.callee) := by simp [voteKey, hr]
  rw [hT] at hkey
  have hnew : p.callee ∉ S := hnet p hp _ hkey
  refine ⟨insert p.callee S, ?_, hT, ?_, ?_⟩
  · rw [Finset.card_insert_of_notMem hnew, hcard, hT]
  · intro v hv
    rcases Finset.mem_insert.1 hv with rfl | hv
    · exact hT ▸ hrec
    · exact hS v hv
  · intro v hv
    rcases Finset.mem_insert.1 hv with rfl | hv
    · exact Or.inl rfl
    · exact Or.inr fun q hq hk => hnet q hq v hk hv

/-- A candidate counts a vote. -/
lemma Tally.count (hW : Records W s s' past) (htr : Run H (s' :: s :: past)) (ht : Tally W s past)
    {p : Packet n C} {args : RequestVoteArgs n} {reply : RequestVoteReply}
    {log : List (LogEntry C)} (hm : s.Moved s' p.caller node (some p) [])
    (hr : p.rpc = .requestVoteReply args reply log)
    (h : node.raft = (s.raft p.caller).requestVoteReply args reply) :
    Tally W s' (s :: past) := by
  have hself : s'.raft p.caller = node.raft := hm.raft_self
  have hst : ∀ j, (s.raft j).stableTerm ≤ (s'.raft j).stableTerm := fun j =>
    (Run.ballot_le htr j (List.mem_cons_of_mem _ List.mem_cons_self)).1
  have hnodup := nodup_keys ht.nodup hm (Or.inl rfl)
  have hquiet : (node.raft.identity = .candidate → (s.raft p.caller).identity = .candidate ∧
      node.raft.currentTerm = (s.raft p.caller).currentTerm ∧
      node.raft.votes = (s.raft p.caller).votes) → Tally W s' (s :: past) := by
    intro hcand
    refine ht.of_moved hW hm hcand hst hnodup ?_ ?_ ?_
    all_goals
      intro q hq
      cases hq
  obtain h' | ⟨-, h'⟩ | ⟨hterm, hv, h' | ⟨-, -, h'⟩⟩ :=
    Raft.requestVoteReply_cases (s.raft p.caller) args reply
  · exact hquiet fun hc => by rw [h, h'] at hc ⊢; exact ⟨hc, rfl, rfl⟩
  · exact hquiet fun hc => by rw [h, h'] at hc; cases hc
  · by_cases hc : (s.raft p.caller).identity = .candidate
    · obtain ⟨S, hcard, hT, hS, hnew⟩ := ht.fresh hm.mem_got hr hv hterm hc
      refine ⟨hnodup, ?_, ?_, ?_, ?_⟩
      · intro q hq c t v hk
        exact (ht.sent q ((hm.mem_net hq).resolve_right (by simp)) c t v hk).trans (hst c)
      · intro q hq
        exact ht.request q ((hm.mem_net hq).resolve_right (by simp))
      · intro q hq args' reply' log' hr' hv'
        obtain ⟨h₁, h₂⟩ :=
          ht.granted q ((hm.mem_net hq).resolve_right (by simp)) args' reply' log' hr' hv'
        exact ⟨h₁, hW.mono h₂⟩
      · intro j hj
        by_cases hij : j = p.caller
        · subst hij
          have hterm' : (s'.raft p.caller).currentTerm = (s.raft p.caller).currentTerm := by
            rw [hself, h, h']
            rfl
          rw [hterm']
          refine ⟨S, ?_, fun v hv => hW.mono (hS v hv), ?_⟩
          · rw [hself, h, h', hcard, hT]
            simp [Raft.countVote]
          · intro q hq v hk hvS
            rcases hnew v hvS with rfl | hno
            · -- the packet just taken was the only one of this voter
              obtain ⟨rest, hperm, hnet⟩ := hm.net
              rw [hnet, List.append_nil] at hq
              have hkey : voteKey p =
                  some (p.caller, (s.raft p.caller).currentTerm, p.callee) := by
                simp [voteKey, hr, hT]
              have hn := (hperm.filterMap voteKey).nodup_iff.1 ht.nodup
              simp only [Option.toList_some, List.cons_append, List.nil_append,
                List.filterMap_cons, hkey, List.nodup_cons] at hn
              exact hn.1 (List.mem_filterMap.2 ⟨q, hq, hk⟩)
            · exact hno q ((hm.mem_net hq).resolve_right (by simp)) hk
        · exact ht.counted_other hW hm hij (fun q hq => by cases hq) hj
    · refine hquiet fun hc' => absurd ?_ hc
      rw [h, h'] at hc'
      exact hc'
  · exact hquiet fun hc => by rw [h, h'] at hc; cases hc

end Step

/-- Every step keeps the tally right. -/
theorem Tally.step (hW : Records W s s' past) (htr : Run H (s' :: s :: past))
    (ht : Tally W s past) : Tally W s' (s :: past) := by
  obtain ⟨e, hok, hs⟩ := htr.last
  obtain ⟨i, node, got, sent, hturn, hm⟩ := step_turn hok hs
  obtain ⟨calls, h, rfl, rfl⟩ | ⟨p, args, reply, rfl, rfl, hr, h, rfl⟩ |
    ⟨p, args, reply, log, rfl, rfl, hr, -, h, rfl⟩ | ⟨hb, hsent⟩ := hturn.vote_cases
  · exact ht.stand hW htr hm h
  · exact ht.vote hW htr hm hr h
  · exact ht.count hW htr hm hr h
  · have hkeys : sent.filterMap voteKey = [] := List.filterMap_eq_nil_iff.2 hsent
    refine ht.of_moved hW hm hb.candidate (fun j => ?_)
      (nodup_keys ht.nodup hm (Or.inl hkeys)) ?_ ?_ ?_
    · exact (Run.ballot_le htr j (List.mem_cons_of_mem _ List.mem_cons_self)).1
    · intro p hp k hk
      rw [hsent p hp] at hk
      cases hk
    · intro p hp args hr
      have := hsent p hp
      simp [voteKey, hr] at this
    · intro p hp args reply log hr
      have := hsent p hp
      simp [voteKey, hr] at this

/-- **Whoever becomes leader has a majority of recorded votes.** -/
theorem Tally.quorum (ht : Tally W s past) (htr : Run H (s' :: s :: past)) {i : Fin n}
    (hl : (s'.raft i).identity = .leader) (hn : (s.raft i).identity ≠ .leader) :
    (s.raft i).identity = .candidate ∧ (s'.raft i).currentTerm = (s.raft i).currentTerm ∧
      (s'.raft i).logical = (s.raft i).logical ∧
      ∃ Q : Finset (Fin n), Majority Q ∧ ∀ v ∈ Q, W (s :: past) v (s.raft i).currentTerm i := by
  obtain ⟨e, hok, hs⟩ := htr.last
  obtain ⟨j, node, got, sent, hturn, hm⟩ := step_turn hok hs
  by_cases hij : i = j
  · subst hij
    have hself : s'.raft i = node.raft := hm.raft_self
    rw [hself] at hl ⊢
    obtain ⟨calls, h, rfl, rfl⟩ | ⟨p, args, reply, rfl, -, hr, h, rfl⟩ |
      ⟨p, args, reply, log, rfl, rfl, hr, -, h, rfl⟩ | ⟨hb, -⟩ := hturn.vote_cases
    · obtain ⟨hl', -⟩ | ⟨-, last, -, heq, -⟩ := Raft.electionTimeout_cases h
      · exact absurd hl' hn
      · rw [heq] at hl
        cases hl
    · have hb : Ballot.Step True False True _ _ := Raft.ballot_requestVote h
      exact absurd (hb.leader hl).1 hn
    · obtain h' | ⟨-, h'⟩ | ⟨hterm, hv, h' | ⟨hc, hmaj, h'⟩⟩ :=
        Raft.requestVoteReply_cases (s.raft p.caller) args reply
      · rw [h, show (s.nodes p.caller).raft = s.raft p.caller from rfl, h'] at hl
        exact absurd hl hn
      · rw [h, show (s.nodes p.caller).raft = s.raft p.caller from rfl, h'] at hl
        cases hl
      · rw [h, show (s.nodes p.caller).raft = s.raft p.caller from rfl, h'] at hl
        exact absurd hl hn
      · obtain ⟨S, hcard, hT, hS, -⟩ := ht.fresh hm.mem_got hr hv hterm hc
        refine ⟨hc, ?_, ?_, S, ?_, hS⟩
        · rw [h, show (s.nodes p.caller).raft = s.raft p.caller from rfl, h']
          rfl
        · rw [h, show (s.nodes p.caller).raft = s.raft p.caller from rfl, h']
          rfl
        · unfold Majority
          rw [Fintype.card_fin, hcard]
          omega
    · exact absurd (hb.leader hl).1 hn
  · have hsame : s'.raft i = s.raft i := hm.raft_other hij
    rw [hsame] at hl
    exact absurd hl hn

/-! ### Election safety -/

/-- `v` had its vote for `c` in term `t` in stable storage. -/
def Voted (tr : List (Cluster n C)) (v : Fin n) (t : ℕ) (c : Fin n) : Prop :=
  ∃ s ∈ tr, (s.raft v).stableTerm = t ∧ (s.raft v).stableVote = some c

/-- A server has one vote in a term. -/
lemma Voted.unique {tr : List (Cluster n C)} (htr : Run H tr) {v c c' : Fin n} {t : ℕ}
    (h : Voted tr v t c) (h' : Voted tr v t c') : c = c' := by
  obtain ⟨s₁, hs₁, ht₁, hv₁⟩ := h
  obtain ⟨s₂, hs₂, ht₂, hv₂⟩ := h'
  rcases Run.ballot_total htr v hs₁ hs₂ with hle | hle
  · have := (hle.2 c (ht₁.trans ht₂.symm) hv₁).symm.trans hv₂
    exact Option.some.inj this
  · have := (hle.2 c' (ht₂.trans ht₁.symm) hv₂).symm.trans hv₁
    exact (Option.some.inj this).symm

/-- Votes are in stable storage from the moment they are cast. -/
lemma records_voted (htr : Run H (s' :: s :: past)) : Records Voted s s' past where
  mono h := by
    obtain ⟨s₁, hs₁, h⟩ := h
    exact ⟨s₁, List.mem_cons_of_mem _ hs₁, h⟩
  stand := by
    intro i calls hl h
    obtain ⟨hl', -⟩ | ⟨-, last, -, heq, -⟩ := Raft.electionTimeout_cases h
    · exact absurd hl' hl
    · have hme := (Run.ballot_ok htr.tail i).1
      refine ⟨s', List.mem_cons_self, ?_, ?_⟩
      · rw [heq]
        rfl
      · rw [heq]
        exact congrArg some hme
  grant := by
    intro p args reply hp hr h hv hcand
    obtain ⟨-, rfl⟩ | ⟨-, -, last, -, ⟨-, rfl⟩ | ⟨heq, -, -⟩⟩ := Raft.requestVote_cases h
    · cases hv
    · cases hv
    · refine ⟨s', List.mem_cons_self, ?_, ?_⟩
      · rw [heq]
        rfl
      · rw [heq]
        exact congrArg some hcand

lemma Run.tally_voted (htr : Run H (s :: past)) : Tally Voted s past := by
  refine Trace.invariant (P := Tally Voted) tally_init ?_ htr
  intro s past e s' htr ht hok hs
  have htr' : Run H (s' :: s :: past) := .step e htr hok hs
  exact ht.step (records_voted htr') htr'

/-- A leader has a majority of votes in stable storages. -/
lemma Run.leader_voted (htr : Run H (s :: past)) : ∀ s₁ ∈ s :: past, ∀ i,
    (s₁.raft i).identity = .leader → ∃ Q : Finset (Fin n), Majority Q ∧
      ∀ v ∈ Q, Voted (s :: past) v (s₁.raft i).currentTerm i := by
  have hkeep : ∀ {s : Cluster n C} {past : List (Cluster n C)} {v t c},
      Voted past v t c → Voted (s :: past) v t c :=
    fun ⟨s₁, hs₁, h⟩ => ⟨s₁, List.mem_cons_of_mem _ hs₁, h⟩
  refine Trace.invariant (P := fun s past => ∀ s₁ ∈ s :: past, ∀ i,
    (s₁.raft i).identity = .leader → ∃ Q : Finset (Fin n), Majority Q ∧
      ∀ v ∈ Q, Voted (s :: past) v (s₁.raft i).currentTerm i) ?_ ?_ htr
  · intro s₁ hs₁ i hl
    rw [List.mem_singleton.1 hs₁] at hl
    cases hl
  · intro s past e s' htr hi hok hs s₁ hs₁ i hl
    rcases List.mem_cons.1 hs₁ with rfl | hs₁
    · by_cases hl' : (s.raft i).identity = .leader
      · -- it was leader before, in the same term
        obtain ⟨Q, hQ, hv⟩ := hi s List.mem_cons_self i hl'
        have hterm : (s₁.raft i).currentTerm = (s.raft i).currentTerm :=
          ((step_ballot hs i).leader_cases hl).2
        rw [hterm]
        exact ⟨Q, hQ, fun v hvQ => hkeep (hv v hvQ)⟩
      · obtain ⟨-, hterm, -, Q, hQ, hv⟩ := (Run.tally_voted htr).quorum (.step e htr hok hs) hl hl'
        rw [hterm]
        exact ⟨Q, hQ, fun v hvQ => hkeep (hv v hvQ)⟩
    · obtain ⟨Q, hQ, hv⟩ := hi s₁ hs₁ i hl
      exact ⟨Q, hQ, fun v hvQ => hkeep (hv v hvQ)⟩

/-- A term has one leader, in all of a run. -/
lemma Run.leader_unique {tr : List (Cluster n C)} (htr : Run H tr) {s₁ s₂ : Cluster n C}
    (hs₁ : s₁ ∈ tr) (hs₂ : s₂ ∈ tr) {a b : Fin n} (ha : (s₁.raft a).identity = .leader)
    (hb : (s₂.raft b).identity = .leader)
    (hab : (s₁.raft a).currentTerm = (s₂.raft b).currentTerm) : a = b := by
  cases tr with
  | nil => cases hs₁
  | cons s past =>
    obtain ⟨Q, hQ, hv⟩ := htr.leader_voted s₁ hs₁ a ha
    obtain ⟨Q', hQ', hv'⟩ := htr.leader_voted s₂ hs₂ b hb
    obtain ⟨v, hvQ, hvQ'⟩ := hQ.meet hQ'
    exact (hv v hvQ).unique htr (hab ▸ hv' v hvQ')

/-- **Election safety.**  In every run of a cluster of any size, with messages delayed, reordered or
lost and servers that crash and restart, no two servers ever lead the same term. -/
theorem election_safety {tr : List (Cluster n C)} (htr : Trace step anyStep init tr)
    {s₁ s₂ : Cluster n C} (hs₁ : s₁ ∈ tr) (hs₂ : s₂ ∈ tr) {a b : Fin n} {t : ℕ}
    (ha : (s₁.raft a).identity = .leader ∧ (s₁.raft a).currentTerm = t)
    (hb : (s₂.raft b).identity = .leader ∧ (s₂.raft b).currentTerm = t) : a = b := by
  have hrun : Run Unrestricted tr := htr.mono fun s e _ => heeds_unrestricted s e
  exact hrun.leader_unique hs₁ hs₂ ha.1 hb.1 (ha.2.trans hb.2.symm)

/-- Server `0` of three is elected in term `1`, and no other server leads that term. -/
theorem election_safety_first_term : ∃ s : Cluster 3 ℕ, Reachable step anyStep init s ∧
    ((s.raft 0).identity = .leader ∧ (s.raft 0).currentTerm = 1) ∧
    ∀ b, (s.raft b).identity = .leader ∧ (s.raft b).currentTerm = 1 → 0 = b := by
  have hrun : (run step (init : Cluster 3 ℕ)
      [.electionTimeout 0, .deliver 0, .deliver 1]).map
        (fun s => ((s.raft 0).identity, (s.raft 0).currentTerm)) = some (.leader, 1) := by
    decide +kernel
  obtain ⟨s, hs, heq⟩ := Option.map_eq_some_iff.1 hrun
  have hlead : (s.raft 0).identity = .leader ∧ (s.raft 0).currentTerm = 1 := Prod.mk.inj heq
  obtain ⟨past, htr⟩ := Reachable.init.run hs
  exact ⟨s, ⟨past, htr⟩, hlead, fun b hb =>
    election_safety htr List.mem_cons_self List.mem_cons_self hlead hb⟩

end Cluster

end RaftLabs
