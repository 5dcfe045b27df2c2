import RaftLabs.Raft.LogMatching
import RaftLabs.Raft.Search

/-!
# Terms in order, and no panic

The binary searches of `raft.go`, and the panics that check what they return, assume that the terms
in `Logs` never decrease and never exceed `CurrentTerm`.  The bound holds against the term in stable
storage (`Run.bounded`), so that no restart breaks it.  The order follows: every entry stands on the
entry its leader put it on (`Run.matched`), which was of no later term than the leader.

With that, none of the functions that contain a panic can run into it, whatever the arguments and
however late a reply arrives: `explicit_panics_unreachable`.
-/

namespace RaftLabs

open Lib

variable {n : ℕ} {C σ : Type} [Inhabited C]

/-! ### The entries that the code puts into a log -/

namespace Store

variable {b : Store C σ} {e : LogEntry C}

lemma mem_splice {args : ApplyEntriesArgs n C} {p : LogEntry C}
    (hle : b.discardCount ≤ args.prevLogIndex)
    (hp : b.logs[args.prevLogIndex - b.discardCount]? = some p)
    (h : e ∈ (b.splice args).logs) : e ∈ b.logs ∨ e ∈ args.entries := by
  obtain ⟨hlen, -⟩ := List.getElem?_eq_some_iff.1 hp
  have hstart : args.prevLogIndex + 1 - b.discardCount ≤ b.logs.length := by omega
  change e ∈ Raft.copyEntries _ _ _ at h
  have hfront : e ∈ b.logs.take (args.prevLogIndex + 1 - b.discardCount) ++ args.entries →
      e ∈ b.logs ∨ e ∈ args.entries := by
    intro h
    rcases List.mem_append.1 h with h | h
    · exact Or.inl (List.mem_of_mem_take h)
    · exact Or.inr h
  obtain ⟨-, hs⟩ | ⟨k, -, hs⟩ := Raft.splice_cases args.entries hstart
  · rw [hs] at h
    rcases List.mem_append.1 h with h | h
    · exact hfront h
    · exact Or.inl (List.mem_of_mem_drop h)
  · rw [hs] at h
    exact hfront h

lemma mem_install {args : InstallSnapshotArgs n C σ} (h : e ∈ (b.install args).logs) :
    e ∈ b.logs ∨ e.term = args.lastIncludedTerm := by
  unfold install at h
  split at h
  · exact Or.inl (List.mem_of_mem_drop h)
  · right
    have := List.mem_of_mem_drop (l := [_]) h
    rw [List.mem_singleton.1 this]

end Store

namespace Cluster

variable {H : Raft n C (List C) → ApplyEntriesArgs n C → Prop} {s s' : Cluster n C}
  {past tr : List (Cluster n C)} {index prev : ℕ} {e : LogEntry C}

/-! ### No entry is of a later term than its server -/

/-- Terms in logs do not exceed the term in stable storage, and terms in messages not that of the
message. -/
structure Bounded (s : Cluster n C) : Prop where
  logs : ∀ i, ∀ e ∈ (s.raft i).logs, e.term ≤ (s.raft i).stableTerm
  entries : ∀ p ∈ s.net, ∀ args, p.rpc = .applyEntries args → ∀ e ∈ args.entries,
    e.term ≤ args.term
  snapshot : ∀ p ∈ s.net, ∀ args, p.rpc = .installSnapshot args → args.lastIncludedTerm ≤ args.term

/-- What a leader sends comes from its log. -/
lemma bounded_heartBeat {rf : Raft n C (List C)} {i : Fin n} {rpc : Rpc n C (List C)}
    (hle : ∀ e ∈ rf.logs, e.term ≤ rf.currentTerm) (h : rf.heartBeatTo i = some rpc) :
    (∀ args, rpc = .applyEntries args → ∀ e ∈ args.entries, e.term ≤ args.term) ∧
      ∀ args, rpc = .installSnapshot args → args.lastIncludedTerm ≤ args.term := by
  obtain ⟨x, hx, -, rfl⟩ | ⟨k, x, -, rfl⟩ := Raft.heartBeatTo_cases h
  · refine ⟨fun args hr => (by cases hr), fun args hr => ?_⟩
    cases hr
    exact hle x (List.mem_of_getElem? hx)
  · refine ⟨fun args hr e he => ?_, fun args hr => by cases hr⟩
    cases hr
    exact hle e (List.mem_of_mem_drop he)

/-- The entries that a turn leaves in the log were there, or came with the term that is saved. -/
lemma Bounded.turn (htr : Run H (s :: past)) (hi : s.Bounded) {i : Fin n} {node : Node n C}
    {got : Option (Packet n C)} {sent : List (Packet n C)}
    (hturn : Turn H i (s.nodes i) node got sent) (hm : s.Moved s' i node got sent)
    (hstable : (s.raft i).stableTerm ≤ node.raft.stableTerm) (he : e ∈ node.raft.logs) :
    e.term ≤ node.raft.stableTerm := by
  have hold : e ∈ (s.raft i).logs → e.term ≤ node.raft.stableTerm :=
    fun he => (hi.logs i e he).trans hstable
  change e ∈ node.raft.store.logs at he
  rcases hturn.store_cases with (h | h) | ⟨c, -, hb, h⟩ |
    ⟨p, args, rfl, -, hr, -, hle, ⟨x, hx, -⟩, hb, h⟩ | ⟨k, -, -, h⟩ |
    ⟨p, args, rfl, -, hr, -, -, hb, h⟩ | ⟨-, h⟩
  · rw [h] at he
    exact hold he
  · rw [h] at he
    exact hold he
  · -- a new entry of the leader, which saves its term with it
    rw [h] at he
    have hterm : node.raft.stableTerm = (s.raft i).currentTerm := congrArg Ballot.stableTerm hb
    rcases List.mem_append.1 he with he | he
    · exact hold he
    · rw [List.mem_singleton.1 he, hterm]
      exact le_rfl
  · rw [h] at he
    have hterm : node.raft.stableTerm = args.term := congrArg Ballot.stableTerm hb
    rcases Store.mem_splice (b := (s.nodes i).raft.store) hle hx he with he | he
    · exact hold he
    · rw [hterm]
      exact hi.entries p hm.mem_got args hr e he
  · rw [h] at he
    exact hold (List.mem_of_mem_drop he)
  · rw [h] at he
    have hterm : node.raft.stableTerm = args.term := congrArg Ballot.stableTerm hb
    rcases Store.mem_install (b := (s.nodes i).raft.store) he with he | he
    · exact hold he
    · rw [hterm, he]
      exact hi.snapshot p hm.mem_got args hr
  · rw [h, show (s.nodes i).raft.store.restart = (s.nodes i).raft.store from
      ((Run.shapely htr).1 i).restart] at he
    exact hold he

lemma Run.bounded (htr : Run H (s :: past)) : s.Bounded := by
  refine Trace.invariant (P := fun s _ => s.Bounded) ?_ ?_ htr
  · refine ⟨fun i e he => ?_, fun p hp => (by cases hp), fun p hp => by cases hp⟩
    rw [List.mem_singleton.1 he]
    exact Nat.zero_le _
  · intro s past e₀ s' htr hi hok hs
    obtain ⟨i, node, got, sent, hturn, hm⟩ := step_turn hok hs
    have htr' : Run H (s' :: s :: past) := .step e₀ htr hok hs
    have hself : s'.raft i = node.raft := hm.raft_self
    have hstable : (s.raft i).stableTerm ≤ node.raft.stableTerm := by
      rw [← hself]
      exact (htr'.ballot_le i (List.mem_cons_of_mem _ List.mem_cons_self)).1
    have hsaved : node.raft.stableTerm ≤ node.raft.currentTerm := by
      rw [← hself]
      exact (Run.ballot_ok htr' i).2.le
    have hnode : ∀ e ∈ node.raft.logs, e.term ≤ node.raft.stableTerm := fun e he =>
      hi.turn htr hturn hm hstable he
    have hsent : ∀ p ∈ sent,
        (∀ args, p.rpc = .applyEntries args → ∀ e ∈ args.entries, e.term ≤ args.term) ∧
          ∀ args, p.rpc = .installSnapshot args → args.lastIncludedTerm ≤ args.term := by
      intro p hp
      have hbeat := fun h => bounded_heartBeat (fun e he => (hnode e he).trans hsaved)
        (hturn.sent_beat hp h)
      exact ⟨fun args hr => (hbeat (Or.inl ⟨args, hr⟩)).1 args hr,
        fun args hr => (hbeat (Or.inr ⟨args, hr⟩)).2 args hr⟩
    refine ⟨?_, fun p hp args hr => ?_, fun p hp args hr => ?_⟩
    · exact hm.forall_nodes (P := fun _ node => ∀ e ∈ node.raft.logs, e.term ≤ node.raft.stableTerm)
        hnode fun j _ => hi.logs j
    · rcases hm.mem_net hp with hp | hp
      · exact hi.entries p hp args hr
      · exact (hsent p hp).1 args hr
    · rcases hm.mem_net hp with hp | hp
      · exact hi.snapshot p hp args hr
      · exact (hsent p hp).2 args hr

/-- No entry of a log is of a later term than the server. -/
lemma Run.term_le (htr : Run H (s :: past)) (i : Fin n) :
    ∀ e ∈ (s.raft i).logs, e.term ≤ (s.raft i).currentTerm :=
  fun e he => (htr.bounded.logs i e he).trans (Run.ballot_ok htr i).2.le

/-! ### Terms in order -/

/-- A leader puts its entries on entries of no later term. -/
lemma Made.le (htr : Run H tr) (h : Made tr index e prev) : prev ≤ e.term := by
  obtain ⟨s, hs, i, -, hterm, k, p, hp, -, rfl, -⟩ := h
  obtain ⟨past, hrun⟩ := htr.mem hs
  rw [← hterm]
  exact Run.term_le hrun i p (List.mem_of_getElem? hp)

/-- **The terms of a log are in order**, in every run. -/
lemma Run.ascending (htr : Run H (s :: past)) (i : Fin n) : Ascending (s.raft i).logs := by
  let R : LogEntry C → LogEntry C → Prop := fun a b => a.term ≤ b.term
  have : Trans R R R := ⟨le_trans⟩
  refine List.isChain_iff_pairwise.1 (List.isChain_iff_getElem.2 fun k hk => ?_)
  have hat : At (s.raft i).logs (s.raft i).discardCount ((s.raft i).discardCount + k + 1)
      (s.raft i).logs[k + 1] (s.raft i).logs[k].term :=
    ⟨k, _, List.getElem?_eq_getElem (by omega), List.getElem?_eq_getElem hk, rfl, rfl⟩
  exact (htr.matched.made i _ _ _ hat).le htr

end Cluster

/-! ### The functions with a panic -/

namespace Raft

variable {rf : Raft n C σ}

lemma replicateCheck_isSome (hne : rf.logs ≠ []) (args : ApplyEntriesArgs n C) :
    (rf.replicateCheck args).isSome := by
  have hpos := List.length_pos_iff.2 hne
  dsimp only [replicateCheck]
  split_ifs with hneg hzero hincl hlen
  · rfl
  · rw [hzero, show (0 : ℤ) = (0 : ℕ) from rfl, entry_natCast (List.getElem?_eq_getElem hpos)]
    rfl
  · rfl
  · unfold realIndex at hneg hlen
    have hk : args.prevLogIndex - rf.discardCount < rf.logs.length := by omega
    rw [entry_of_realIndex (by omega) (List.getElem?_eq_getElem hk)]
    rfl
  · rfl

lemma applyEntries_isSome (hne : rf.logs ≠ []) (h : Ascending rf.logs)
    (args : ApplyEntriesArgs n C) : (rf.applyEntries args).isSome := by
  unfold applyEntries
  split_ifs with hlt
  · rfl
  · have hlogs : (rf.followLeader args.term).logs = rf.logs := by
      rw [followLeader_eq rf (not_lt.1 hlt)]
    obtain ⟨passed, hpassed⟩ :=
      Option.isSome_iff_exists.1 (replicateCheck_isSome (hlogs ▸ hne) args)
    dsimp only
    rw [hpassed, Option.bind_some]
    split_ifs
    · rfl
    · obtain ⟨reply, hreply, -⟩ := rejectEntries_cases (hlogs ▸ hne) (hlogs ▸ h) args
      rw [hreply]
      rfl

lemma updateCommittedIndex_isSome (hne : rf.logs ≠ []) (h : Ascending rf.logs)
    (hle : ∀ e ∈ rf.logs, e.term ≤ rf.currentTerm) : rf.updateCommittedIndex.isSome := by
  rw [updateCommittedIndex_eq hne h hle]
  split_ifs <;> rfl

lemma sendApplyEntriesTo_isSome (hne : rf.logs ≠ []) (h : Ascending rf.logs)
    (hle : ∀ e ∈ rf.logs, e.term ≤ rf.currentTerm) (server : Fin n) (args : ApplyEntriesArgs n C)
    (reply : ApplyEntriesReply) : (rf.sendApplyEntriesTo server args reply).isSome := by
  unfold sendApplyEntriesTo
  split_ifs
  · rfl
  · rfl
  · rfl
  · obtain ⟨-, hb⟩ | ⟨-, hb⟩ | ⟨-, k, e, -, -, hb⟩ := backUp_cases hne h reply
    all_goals rw [hb]; rfl
  · exact updateCommittedIndex_isSome hne h hle
  · rfl

/-- A `nextIndex` that is not in the snapshot is not `0`, and what comes before it is in `Logs`. -/
lemma heartBeatTo_isSome (hne : rf.logs ≠ []) (hd : rf.discardCount = rf.lastIncludedIndex)
    (i : Fin n) : (rf.heartBeatTo i).isSome := by
  have hpos := List.length_pos_iff.2 hne
  dsimp only [heartBeatTo]
  split_ifs with hsnap hlong hpanic
  · rw [show (0 : ℤ) = (0 : ℕ) from rfl, entry_natCast (List.getElem?_eq_getElem hpos)]
    rfl
  · unfold realIndex at hpanic
    omega
  · unfold raftIndex at hlong
    have hk : rf.nextIndex i - 1 - rf.discardCount < rf.logs.length := by omega
    rw [entry_of_realIndex (by omega) (List.getElem?_eq_getElem hk)]
    rfl
  · have hk : rf.raftIndex (rf.logs.length - 1) - rf.discardCount < rf.logs.length := by
      unfold raftIndex
      omega
    rw [entry_of_realIndex (by unfold raftIndex; omega) (List.getElem?_eq_getElem hk)]
    rfl

lemma sendHeartBeat_isSome (hne : rf.logs ≠ []) (hd : rf.discardCount = rf.lastIncludedIndex) :
    rf.sendHeartBeat.isSome := by
  unfold sendHeartBeat
  generalize (List.finRange n).filter (· ≠ rf.me) = l
  induction l with
  | nil => rfl
  | cons i l ih =>
    obtain ⟨rpc, hrpc⟩ := Option.isSome_iff_exists.1 (heartBeatTo_isSome hne hd i)
    obtain ⟨calls, hcalls⟩ := Option.isSome_iff_exists.1 ih
    rw [List.mapM_cons, hrpc, hcalls]
    rfl

lemma start_isSome (hne : rf.logs ≠ []) (hd : rf.discardCount = rf.lastIncludedIndex)
    (command : C) : (rf.start command).isSome := by
  unfold start
  split_ifs
  · have hs : (({ rf with logs := rf.logs ++ [⟨command, rf.currentTerm⟩] } :
        Raft n C σ).persist).sendHeartBeat.isSome :=
      sendHeartBeat_isSome (List.append_ne_nil_of_left_ne_nil hne _) hd
    obtain ⟨calls, hcalls⟩ := Option.isSome_iff_exists.1 hs
    dsimp only
    rw [hcalls]
    rfl
  · rfl

/-- The terms in `Logs` never decrease and never exceed `CurrentTerm`, and no function with a panic
runs into it: not on any `ApplyEntries`, not on any reply to one, not when it builds the messages of
a heartbeat or of a new command, and not when it looks for something to commit. -/
structure PanicFree (rf : Raft n C σ) : Prop where
  ascending : Ascending rf.logs
  term_le : ∀ e ∈ rf.logs, e.term ≤ rf.currentTerm
  applyEntries : ∀ args, (rf.applyEntries args).isSome
  sendApplyEntriesTo : ∀ server args reply, (rf.sendApplyEntriesTo server args reply).isSome
  sendHeartBeat : rf.sendHeartBeat.isSome
  start : ∀ command, (rf.start command).isSome
  updateCommittedIndex : rf.updateCommittedIndex.isSome

end Raft

namespace Cluster

/-- **The explicit panics are unreachable**, in every reachable state, crashes and compaction
included. -/
theorem explicit_panics_unreachable {s : Cluster n C} (h : Reachable step anyStep init s)
    (i : Fin n) : (s.raft i).PanicFree := by
  obtain ⟨past, htr⟩ := h
  have hrun : Run Unrestricted (s :: past) := htr.mono fun s e _ => heeds_unrestricted s e
  have hne : (s.raft i).logs ≠ [] := (hrun.shapely.1 i).logs_ne
  have hd : (s.raft i).discardCount = (s.raft i).lastIncludedIndex := (hrun.shapely.1 i).discard
  have hasc := hrun.ascending i
  have hle := hrun.term_le i
  exact ⟨hasc, hle, Raft.applyEntries_isSome hne hasc,
    Raft.sendApplyEntriesTo_isSome hne hasc hle, Raft.sendHeartBeat_isSome hne hd,
    Raft.start_isSome hne hd, Raft.updateCommittedIndex_isSome hne hasc hle⟩

/-- A follower that has stored an entry of the first term and then heard of a later one. -/
theorem explicit_panics_unreachable_later_term : ∃ s : Cluster 3 ℕ,
    Reachable step anyStep init s ∧ (s.raft 1).logs = [default, ⟨10, 1⟩] ∧
      (s.raft 1).currentTerm = 2 ∧ (s.raft 1).PanicFree := by
  have hrun : (run step (init : Cluster 3 ℕ)
      [.electionTimeout 0, .deliver 0, .deliver 1, .start 0 10, .deliver 1, .electionTimeout 2,
        .electionTimeout 2, .deliver 6]).map
        (fun s => ((s.raft 1).logs, (s.raft 1).currentTerm)) =
        some ([default, ⟨10, 1⟩], 2) := by
    decide +kernel
  obtain ⟨s, hs, heq⟩ := Option.map_eq_some_iff.1 hrun
  simp only [Prod.mk.injEq] at heq
  have hreach := Reachable.init.run hs
  exact ⟨s, hreach, heq.1, heq.2, explicit_panics_unreachable hreach 1⟩

end Cluster

end RaftLabs
