import RaftLabs.Raft.LogMatching

/-!
# Who sent a message, and whether it still leads

`ApplyEntries` and `InstallSnapshot` come from a leader of their term (`Origin`).  A leader leaves
its term only for a higher one, or by a crash: no message of the same term can unseat it, since it
is the only one to send such messages (`Keeps`).  So a goroutine that still waits for a reply, and
finds the server in the term of its request, finds it a leader: `Run.leads`.
-/

set_option linter.unusedSectionVars false

namespace RaftLabs

open Lib

variable {n : ℕ} {C : Type} [Inhabited C]

/-- The term of the leader that an RPC comes from or goes back to. -/
def leadTerm : Rpc n C (List C) → Option ℕ
  | .applyEntries args => some args.term
  | .applyEntriesReply args _ _ => some args.term
  | .installSnapshot args => some args.term
  | .installSnapshotReply args _ _ => some args.term
  | .requestVote _ => none
  | .requestVoteReply _ _ _ => none

namespace Raft

variable {σ : Type} {rf rf' : Raft n C σ}

/-- The term grows, and a leader stays one until it does. -/
def Stays (rf rf' : Raft n C σ) : Prop :=
  rf.currentTerm ≤ rf'.currentTerm ∧ (rf.identity = .leader →
    rf.currentTerm < rf'.currentTerm ∨
      (rf'.identity = .leader ∧ rf'.currentTerm = rf.currentTerm))

lemma Stays.same (hid : rf'.identity = rf.identity) (hterm : rf'.currentTerm = rf.currentTerm) :
    Stays rf rf' :=
  ⟨hterm.ge, fun hl => Or.inr ⟨hid.trans hl, hterm⟩⟩

lemma Stays.ballot (h : rf'.ballot = rf.ballot ∨ rf'.ballot = rf.ballot.save) : Stays rf rf' := by
  rcases h with h | h
  · exact .same (congrArg Ballot.identity h) (congrArg Ballot.term h)
  · exact .same (congrArg Ballot.identity h) (congrArg Ballot.term h)

/-- A leader that takes over another term has a higher one. -/
lemma Stays.raise (hle : rf.currentTerm ≤ rf'.currentTerm)
    (hne : rf.identity = .leader → rf'.currentTerm ≠ rf.currentTerm) : Stays rf rf' :=
  ⟨hle, fun hl => Or.inl (lt_of_le_of_ne hle (hne hl).symm)⟩

end Raft

namespace Cluster

variable {H : Raft n C (List C) → ApplyEntriesArgs n C → Prop} {s s' : Cluster n C}
  {past : List (Cluster n C)}

/-- The caller of `p` led the term of `p` when it sent it, in the incarnation that `p` names. -/
def Origin (tr : List (Cluster n C)) (p : Packet n C) : Prop :=
  ∀ t, leadTerm p.rpc = some t → p.callee ≠ p.caller ∧ ∃ s ∈ tr,
    (s.nodes p.caller).epoch = p.epoch ∧ (s.raft p.caller).identity = .leader ∧
      (s.raft p.caller).currentTerm = t

lemma Origin.mono {p : Packet n C} (h : Origin past p) : Origin (s :: past) p := by
  intro t ht
  obtain ⟨hne, s₁, hs₁, h⟩ := h t ht
  exact ⟨hne, s₁, List.mem_cons_of_mem _ hs₁, h⟩

lemma Run.origin (htr : Run H (s :: past)) : ∀ p ∈ s.net, Origin (s :: past) p := by
  refine Trace.invariant (P := fun s past => ∀ p ∈ s.net, Origin (s :: past) p) ?_ ?_ htr
  · intro p hp
    cases hp
  · intro s past e s' htr hi hok hs p hp
    obtain ⟨i, node, got, sent, hturn, hm⟩ := step_turn hok hs
    have hme : node.raft.me = i := by
      have := (Run.ballot_ok (.step e htr hok hs) i).1
      rwa [show s'.raft i = node.raft from hm.raft_self] at this
    rcases hm.mem_net hp with hp | hp
    · exact (hi p hp).mono
    · intro t ht
      rcases hturn.sent_cases hp with ⟨_, -, -, -, h⟩ | ⟨hl, hcaller, hepoch, hcallee, h⟩ |
        ⟨q, args, reply, -, -, rfl⟩ | ⟨q, args, reply, rfl, -, hr, -, -, rfl⟩ |
        ⟨q, args, reply, rfl, -, hr, -, rfl⟩
      · rw [h] at ht
        cases ht
      · have hterm : t = node.raft.currentTerm := by
          obtain ⟨e, -, -, h⟩ | ⟨k, e, -, h⟩ := Raft.heartBeatTo_cases h
          · rw [h] at ht
            exact (Option.some.inj ht).symm
          · rw [h] at ht
            exact (Option.some.inj ht).symm
        refine ⟨by rw [hcaller, ← hme]; exact hcallee, s', List.mem_cons_self, ?_⟩
        unfold raft
        rw [hcaller, hm.self]
        exact ⟨hepoch.symm, hl, hterm.symm⟩
      · cases ht
      · exact (hi q hm.mem_got).mono t (by rw [hr]; exact ht)
      · exact (hi q hm.mem_got).mono t (by rw [hr]; exact ht)

/-- Within one incarnation the term grows, and a leader stays one until it does. -/
def Keeps (node node' : Node n C) : Prop :=
  node.epoch ≤ node'.epoch ∧ (node'.epoch = node.epoch →
    node.raft.currentTerm ≤ node'.raft.currentTerm ∧
    (node.raft.identity = .leader → node.raft.currentTerm < node'.raft.currentTerm ∨
      (node'.raft.identity = .leader ∧ node'.raft.currentTerm = node.raft.currentTerm)))

lemma Keeps.refl (node : Node n C) : Keeps node node :=
  ⟨le_rfl, fun _ => ⟨le_rfl, fun h => Or.inr ⟨h, rfl⟩⟩⟩

lemma Keeps.trans {a b c : Node n C} (h : Keeps a b) (h' : Keeps b c) : Keeps a c := by
  refine ⟨h.1.trans h'.1, fun heq => ?_⟩
  have hab : b.epoch = a.epoch := le_antisymm (heq ▸ h'.1) h.1
  obtain ⟨h₁, h₂⟩ := h.2 hab
  obtain ⟨h₁', h₂'⟩ := h'.2 (heq.trans hab.symm)
  refine ⟨h₁.trans h₁', fun hl => ?_⟩
  rcases h₂ hl with hlt | ⟨hl', hterm⟩
  · exact Or.inl (hlt.trans_le h₁')
  · rcases h₂' hl' with hlt | ⟨hl'', hterm'⟩
    · exact Or.inl (hterm ▸ hlt)
    · exact Or.inr ⟨hl'', hterm'.trans hterm⟩

/-- The messages of a leader's own term do not come from elsewhere. -/
lemma Run.leadTerm_ne (htr : Run H (s :: past)) {p : Packet n C} (hp : p ∈ s.net) {t : ℕ}
    (ht : leadTerm p.rpc = some t) (hl : (s.raft p.callee).identity = .leader) :
    t ≠ (s.raft p.callee).currentTerm := by
  rintro rfl
  obtain ⟨hne, s₁, hs₁, -, hl₁, ht₁⟩ := Run.origin htr p hp _ ht
  exact hne (Run.leader_unique htr hs₁ List.mem_cons_self hl₁ hl ht₁).symm

/-- A leader has voted for itself in its own term, and for no one else. -/
lemma Run.voted_ne (htr : Run H (s :: past)) {p : Packet n C} (hp : p ∈ s.net)
    {args : RequestVoteArgs n} (hr : p.rpc = .requestVote args)
    (hv : args.term = (s.raft p.callee).currentTerm →
      (s.raft p.callee).voteFor = none ∨ (s.raft p.callee).voteFor = some args.candidateId)
    (hl : (s.raft p.callee).identity = .leader) : args.term ≠ (s.raft p.callee).currentTerm := by
  intro heq
  obtain ⟨hme, hok⟩ := Run.ballot_ok htr p.callee
  have hvote : (s.raft p.callee).voteFor = some p.callee :=
    (hok.active fun hf => by cases hl.symm.trans hf).trans (congrArg some hme)
  obtain ⟨hcand, hcc⟩ := (Run.tally_voted htr).request p hp args hr
  rw [hvote] at hv
  rcases hv heq with hv | hv
  · cases hv
  · exact hcc ((Option.some.inj hv).trans hcand)

/-- A turn of a leader that is not a crash leaves it leader, unless the term grows. -/
lemma step_keeps (htr : Run H (s :: past)) {i : Fin n} {node : Node n C}
    {got : Option (Packet n C)} {sent : List (Packet n C)}
    (hturn : Turn H i (s.nodes i) node got sent) (hm : s.Moved s' i node got sent) :
    Keeps (s.nodes i) node := by
  have hstays : ∀ {node : Node n C}, node.epoch = (s.nodes i).epoch →
      (s.raft i).Stays node.raft → Keeps (s.nodes i) node := fun he h => ⟨he.ge, fun _ => h⟩
  cases hturn with
  | crash => exact ⟨Nat.le_succ _, fun h => absurd h (Nat.succ_ne_self _)⟩
  | heartbeatTimeout h => exact .refl _
  | lost => exact .refl _
  | applyMsg h =>
    refine hstays (Node.take_epoch _ _) ?_
    rw [Node.take_raft]
    exact .same rfl rfl
  | electionTimeout h =>
    refine hstays rfl ?_
    obtain ⟨-, rfl, -⟩ | ⟨hl, last, -, rfl, -⟩ := Raft.electionTimeout_cases h
    · exact .same rfl rfl
    · exact ⟨Nat.le_succ _, fun hl' => absurd hl' hl⟩
  | start h =>
    refine hstays rfl ?_
    obtain ⟨-, rfl, -⟩ | ⟨-, rfl, -⟩ := Raft.start_cases h
    · exact .same rfl rfl
    · exact .same rfl rfl
  | snapshot h₁ h₂ => exact hstays rfl (.ballot (Raft.ballot_callSnapshot _ _ _))
  | applyLog hb h => exact hstays rfl (.ballot (Or.inl (Raft.ballot_applyLog h)))
  | @requestVote p args rf reply hp hr h =>
    subst hp
    refine hstays rfl ?_
    obtain ⟨rfl, -⟩ | ⟨hle, hv, last, -, hcase⟩ := Raft.requestVote_cases h
    · exact .same rfl rfl
    · have hne := htr.voted_ne hm.mem_got hr hv
      obtain ⟨rfl, -⟩ | ⟨rfl, -, -⟩ := hcase
      · have hterm : ((s.raft p.callee).observe args.term).currentTerm = args.term :=
          (Raft.observe_currentTerm _).trans (max_eq_right hle)
        exact .raise (hle.trans_eq hterm.symm) fun hl => hterm.trans_ne (hne hl)
      · exact .raise hle hne
  | @applyEntries p args rf reply hp hr hH h =>
    subst hp
    refine hstays rfl ?_
    obtain ⟨-, rfl, -⟩ | ⟨hle, hterm, -⟩ := Raft.applyEntries_cases h
    · exact .same rfl rfl
    · have hrf : args.term = rf.currentTerm := by
        rw [← hterm]
        exact Raft.handle_terms (x := .applyEntries args) (by rw [Raft.handle, h]; rfl) reply.term
          (List.mem_singleton_self _)
      have hne := htr.leadTerm_ne hm.mem_got (t := args.term) (by rw [hr]; rfl)
      exact .raise (hle.trans_eq hrf) (hrf ▸ hne)
  | @installSnapshot p args rf reply hp hr h =>
    subst hp
    refine hstays rfl ?_
    have hrf : reply.term = rf.currentTerm :=
      Raft.handle_terms (x := .installSnapshot args) (by rw [Raft.handle, h]) reply.term
        (List.mem_singleton_self _)
    have hne := htr.leadTerm_ne hm.mem_got (t := args.term) (by rw [hr]; rfl)
    obtain ⟨-, h'⟩ | ⟨hle, -, h'⟩ | ⟨hle, -, h'⟩ :=
      Raft.installSnapshot_cases (s.raft p.callee) args
    · cases h.symm.trans h'
      exact .same rfl rfl
    · cases h.symm.trans h'
      exact .raise (hle.trans_eq hrf) (hrf ▸ hne)
    · cases h.symm.trans h'
      exact .raise (hle.trans_eq hrf) (hrf ▸ hne)
  | @requestVoteReply p args reply log hp hr he =>
    refine hstays rfl ?_
    obtain h | ⟨hlt, h⟩ | ⟨-, -, h | ⟨hc, -, h⟩⟩ :=
      Raft.requestVoteReply_cases (s.nodes i).raft args reply
    · rw [h]
      exact .same rfl rfl
    · rw [h]
      exact .raise hlt.le fun _ => hlt.ne'
    · rw [h]
      exact .same rfl rfl
    · rw [h]
      exact ⟨le_rfl, fun hl => Or.inr ⟨rfl, rfl⟩⟩
  | applyEntriesReply hp hr he h =>
    refine hstays rfl ?_
    obtain rfl | ⟨hlt, rfl⟩ | ⟨index, rfl⟩ | ⟨-, -, -, -, h⟩ := Raft.sendApplyEntriesTo_cases h
    · exact .same rfl rfl
    · exact .raise hlt.le fun _ => hlt.ne'
    · exact .same rfl rfl
    · exact .ballot (Or.inl ((Raft.ballot_updateCommittedIndex h).trans rfl))
  | @installSnapshotReply p args reply log hp hr he =>
    refine hstays rfl ?_
    obtain h | ⟨hlt, h⟩ | ⟨-, -, h⟩ :=
      Raft.sendInstallSnapshotTo_cases (s.nodes i).raft p.callee args reply
    · rw [h]
      exact .same rfl rfl
    · rw [h]
      exact .raise hlt.le fun _ => hlt.ne'
    · rw [h]
      exact .same rfl rfl

lemma Run.keeps (htr : Run H (s :: past)) (i : Fin n) {s₁ : Cluster n C} (hs₁ : s₁ ∈ s :: past) :
    Keeps (s₁.nodes i) (s.nodes i) := by
  refine Trace.latest (R := fun s s' => Keeps (s.nodes i) (s'.nodes i)) (fun _ => .refl _)
    (fun _ _ _ => .trans) ?_ htr hs₁
  intro s past e s' htr hok hs
  obtain ⟨j, node, got, sent, hturn, hm⟩ := step_turn hok hs
  by_cases hij : i = j
  · subst hij
    rw [hm.self]
    exact step_keeps htr hturn hm
  · rw [hm.other hij]
    exact .refl _

/-- **A goroutine that waits for a reply in the term of its request runs on a leader.** -/
lemma Run.leads (htr : Run H (s :: past)) {p : Packet n C} (hp : p ∈ s.net) {t : ℕ}
    (ht : leadTerm p.rpc = some t) (he : p.epoch = (s.nodes p.caller).epoch) :
    t ≤ (s.raft p.caller).currentTerm ∧
      (t = (s.raft p.caller).currentTerm → (s.raft p.caller).identity = .leader) := by
  obtain ⟨-, s₁, hs₁, hep, hl, hterm⟩ := htr.origin p hp t ht
  obtain ⟨h₁, h₂⟩ := (htr.keeps p.caller hs₁).2 (he.symm.trans hep.symm)
  have hterm' : (s₁.nodes p.caller).raft.currentTerm = t := hterm
  rw [hterm'] at h₁ h₂
  refine ⟨h₁, fun heq => ?_⟩
  rcases h₂ hl with hlt | ⟨hl', -⟩
  · exact absurd heq (ne_of_lt hlt)
  · exact hl'

end Cluster

end RaftLabs
