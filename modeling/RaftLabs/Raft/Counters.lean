import RaftLabs.Raft.Cluster
import RaftLabs.Raft.Commit

/-!
# When the counters move back

`committedIndex` is meant to grow until the server restarts, and `matchIndex` while it leads.
`handle_advance` leaves one place of the code for each where this can fail.  `ApplyEntries` bounds the
new `committedIndex` by the index of the first entry it was sent, so a retransmission from far back
that carries a newer `LeaderCommit` moves it back.  `sendApplyEntriesTo` takes a reply for current
when its entries begin at `nextIndex`, so after a delayed rejection has moved `nextIndex` back, the
late answer to an old and shorter message moves `matchIndex` back.  For each counter one theorem says
that it grows exactly when this does not happen, another one carries this over a run
(`committedIndex_le_of_trace`, `matchIndex_le_of_trace`), and a run shows that it does happen.
-/

namespace RaftLabs

open Lib

variable {n : ℕ} {C σ : Type} [Inhabited C]

namespace Raft

variable {rf rf' : Raft n C σ} {x : Input n C σ} {terms : List ℕ}

/-! ### The commit index -/

/-- When `ApplyEntries` takes the message over and raises `committedIndex` for it, the bound it puts
on the new value is not below the old one. -/
def KeepsCommitted (rf : Raft n C σ) (args : ApplyEntriesArgs n C) : Prop :=
  rf.currentTerm ≤ args.term → rf.replicateCheck args = some true →
    rf.committedIndex < args.leaderCommit → rf.committedIndex ≤ rf.commitBound args

omit [Inhabited C] in
lemma le_acceptedIndex {args : ApplyEntriesArgs n C} :
    rf.committedIndex ≤ rf.acceptedIndex args ↔
      (rf.committedIndex < args.leaderCommit → rf.committedIndex ≤ rf.commitBound args) := by
  unfold acceptedIndex
  split
  · rename_i hlt
    exact ⟨fun h _ => (le_min_iff.1 h).2, fun h => le_min hlt.le (h hlt)⟩
  · rename_i hlt
    exact ⟨fun _ h => absurd h hlt, fun _ => le_rfl⟩

omit [Inhabited C] in
lemma Advance.committedIndex_le (h : Advance rf rf' x)
    (hkeeps : ∀ args, x = .applyEntries args → rf.KeepsCommitted args) :
    rf.committedIndex ≤ rf'.committedIndex := by
  change rf.progress.committedIndex ≤ rf'.progress.committedIndex
  cases h with
  | keep h => rw [h]
  | lead _ _ _ h => rw [h]
  | accept args hterm hcheck h =>
    rw [h]
    exact le_acceptedIndex.2 (hkeeps args rfl hterm hcheck)
  | replicated _ _ _ _ _ _ _ _ hle h => exact hle.trans (congrArg Progress.committedIndex h).ge
  | installed _ _ _ _ h => rw [h]
  | compact _ _ h => exact (le_max_left _ _).trans (congrArg Progress.committedIndex h).ge
  | applied _ _ h => rw [h]

/-- **`committedIndex` goes back in `ApplyEntries` only**, and there exactly when the bound it puts on
the new value is below the old one. -/
theorem committedIndex_mono_iff (h : rf.handle x = some (rf', terms)) :
    rf.committedIndex ≤ rf'.committedIndex ↔
      ∀ args, x = .applyEntries args → rf.KeepsCommitted args := by
  refine ⟨?_, (handle_advance h).committedIndex_le⟩
  rintro hle args rfl hterm hcheck
  obtain ⟨r, hr, h⟩ := Option.map_eq_some_iff.1 h
  cases h
  have hprog := progress_applyEntries hr
  rw [if_pos ⟨hterm, hcheck⟩] at hprog
  exact le_acceptedIndex.1 (hle.trans (congrArg Progress.committedIndex hprog).le)

/-- A follower that has committed its first entry commits the next one that it is sent. -/
theorem committedIndex_mono_iff_next_entry : ∃ rf rf' : Raft 3 ℕ ℕ,
    (make 1 ⟨none, none⟩).handle (.applyEntries ⟨1, 0, 0, 0, [⟨10, 1⟩], 1⟩) = some (rf, [1]) ∧
    rf.handle (.applyEntries ⟨1, 0, 1, 1, [⟨20, 1⟩], 2⟩) = some (rf', [1]) ∧
    rf.committedIndex = 1 ∧ rf'.committedIndex = 2 ∧ rf.KeepsCommitted ⟨1, 0, 1, 1, [⟨20, 1⟩], 2⟩ := by
  have hrun : ((make 1 ⟨none, none⟩ : Raft 3 ℕ ℕ).handle
      (.applyEntries ⟨1, 0, 0, 0, [⟨10, 1⟩], 1⟩)).bind (fun r =>
        (r.1.handle (.applyEntries ⟨1, 0, 1, 1, [⟨20, 1⟩], 2⟩)).map fun r' =>
          (r.1.committedIndex, r.2, r'.1.committedIndex, r'.2)) = some (1, [1], 2, [1]) := by
    decide +kernel
  obtain ⟨⟨rf, terms⟩, h, hrun⟩ := Option.bind_eq_some_iff.1 hrun
  obtain ⟨⟨rf', terms'⟩, h', heq⟩ := Option.map_eq_some_iff.1 hrun
  simp only [Prod.mk.injEq] at heq
  obtain ⟨hci, rfl, hci', rfl⟩ := heq
  refine ⟨rf, rf', h, h', hci, hci', (committedIndex_mono_iff h').1 ?_ _ rfl⟩
  rw [hci, hci']
  decide

/-- **Until the server restarts.**  As long as no such message is taken over, `committedIndex` only
grows. -/
theorem committedIndex_le_of_trace {rf₀ rf₁ : Raft n C σ} {past : List (Raft n C σ)}
    (h : Trace (fun rf x => (rf.handle x).map Prod.fst)
      (fun rf x => ∀ args, x = .applyEntries args → rf.KeepsCommitted args)
      rf₀ (rf :: past)) (h₁ : rf₁ ∈ rf :: past) : rf₁.committedIndex ≤ rf.committedIndex := by
  refine Trace.latest (R := fun rf rf' => rf.committedIndex ≤ rf'.committedIndex) (fun _ => le_rfl)
    (fun _ _ _ => le_trans) ?_ h h₁
  intro rf past x rf' _ hok hs
  obtain ⟨r, hr, rfl⟩ := Option.map_eq_some_iff.1 hs
  exact (handle_advance hr).committedIndex_le hok

/-! ### The match index -/

/-- When a reply is taken for the answer to the entries from `nextIndex` on, these reach at least to
the old `matchIndex`. -/
def KeepsMatched (rf : Raft n C σ) (server : Fin n) (args : ApplyEntriesArgs n C)
    (reply : ApplyEntriesReply) : Prop :=
  rf.currentTerm ≤ reply.term → reply.success = true → args.entries ≠ [] →
    args.prevLogIndex + 1 = rf.nextIndex server →
    rf.matchIndex server ≤ args.prevLogIndex + args.entries.length

omit [Inhabited C] in
lemma Advance.matchIndex_le (h : Advance rf rf' x) (hid : rf.identity ≠ .candidate)
    (hkeeps : ∀ server args reply, x = .applyEntriesReply server args reply →
      rf.KeepsMatched server args reply) : rf.matchIndex ≤ rf'.matchIndex := by
  change rf.progress.matchIndex ≤ rf'.progress.matchIndex
  cases h with
  | keep h => rw [h]
  | lead _ _ hcand _ => exact absurd hcand hid
  | accept _ _ _ h => rw [h]
  | replicated server args reply _ hterm hsucc hne hnext _ h =>
    rw [h]
    exact le_update_self_iff.2 (hkeeps server args reply rfl hterm hsucc hne hnext)
  | installed _ _ _ hmatch h =>
    rw [h]
    exact le_update_self_iff.2 hmatch
  | compact _ _ h => exact (congrArg Progress.matchIndex h).ge
  | applied _ _ h => rw [h]

/-- **Within a leadership `matchIndex` goes back in `sendApplyEntriesTo` only**, and there exactly
when the reply it takes for current is about entries that end before the old `matchIndex`.  A server
that has led in a term and is still in it is no candidate. -/
theorem matchIndex_mono_iff (h : rf.handle x = some (rf', terms)) (hid : rf.identity ≠ .candidate) :
    (∀ j, rf.matchIndex j ≤ rf'.matchIndex j) ↔
      ∀ server args reply, x = .applyEntriesReply server args reply →
        rf.KeepsMatched server args reply := by
  refine ⟨?_, (handle_advance h).matchIndex_le hid⟩
  rintro hle server args reply rfl hterm hsucc hne hnext
  obtain ⟨r, hr, h⟩ := Option.map_eq_some_iff.1 h
  cases h
  unfold sendApplyEntriesTo at hr
  rw [if_neg (not_lt.2 hterm), if_neg (by simp [hsucc]), if_pos ⟨hne, hnext⟩] at hr
  obtain ⟨index, rfl, -⟩ := updateCommittedIndex_cases hr
  have := le_update_self_iff.1 hle
  omega

/-- **A whole leadership.**  As long as no such reply is taken, `matchIndex` only grows. -/
theorem matchIndex_le_of_trace {rf₀ rf₁ : Raft n C σ} {past : List (Raft n C σ)}
    (h : Trace (fun rf x => (rf.handle x).map Prod.fst)
      (fun rf x => rf.identity ≠ .candidate ∧ ∀ server args reply,
        x = .applyEntriesReply server args reply → rf.KeepsMatched server args reply)
      rf₀ (rf :: past)) (h₁ : rf₁ ∈ rf :: past) : rf₁.matchIndex ≤ rf.matchIndex := by
  refine Trace.latest (R := fun rf rf' => rf.matchIndex ≤ rf'.matchIndex) (fun _ => le_rfl)
    (fun _ _ _ => le_trans) ?_ h h₁
  intro rf past x rf' _ hok hs
  obtain ⟨r, hr, rfl⟩ := Option.map_eq_some_iff.1 hs
  exact (handle_advance hr).matchIndex_le hok.1 hok.2

/-- A leader that has stored two commands; server `1` has the first of them. -/
def replicatingLeader : Raft 3 ℕ ℕ :=
  { make 0 ⟨none, none⟩ with
    currentTerm := 1
    identity := .leader
    logs := [default, ⟨10, 1⟩, ⟨20, 1⟩]
    nextIndex := fun j => if j = 1 then 2 else 1
    matchIndex := fun j => if j = 1 then 1 else 0 }

/-- It learns that server `1` has the second one too. -/
theorem matchIndex_mono_iff_next_reply :
    ∃ rf' : Raft 3 ℕ ℕ, replicatingLeader.handle (.applyEntriesReply 1
        ⟨1, 0, 1, 1, [⟨20, 1⟩], 0⟩ ⟨1, true, 0, 0, 0⟩) = some (rf', []) ∧
      replicatingLeader.identity ≠ .candidate ∧ replicatingLeader.matchIndex 1 = 1 ∧
      rf'.matchIndex 1 = 2 ∧ ∀ j, replicatingLeader.matchIndex j ≤ rf'.matchIndex j := by
  have hrun : (replicatingLeader.handle (.applyEntriesReply 1
      ⟨1, 0, 1, 1, [⟨20, 1⟩], 0⟩ ⟨1, true, 0, 0, 0⟩)).map (fun r => (r.1.matchIndex 1, r.2)) =
        some (2, []) := by decide +kernel
  obtain ⟨⟨rf', terms⟩, h, heq⟩ := Option.map_eq_some_iff.1 hrun
  obtain ⟨hm, rfl⟩ := Prod.mk.inj heq
  refine ⟨rf', h, by decide, rfl, hm, (matchIndex_mono_iff h (by decide)).2 ?_⟩
  rintro server args reply heq - - - -
  cases heq
  decide

end Raft

/-! ### The two runs -/

namespace Cluster

/-- Server `0` commits three commands with server `2`.  Server `1` has only the first of them, and
its answer reaches server `0` between two heartbeats: the first heartbeat repeats all the entries, the
second those from index `2` on.  They arrive in the other order. -/
def retransmission : List (Event 3 ℕ) :=
  [.electionTimeout 0, .deliver 0, .deliver 1, .start 0 10, .start 0 20, .start 0 30, .deliver 6,
    .deliver 6, .deliver 1, .heartbeatTimeout 0, .deliver 5, .heartbeatTimeout 0, .deliver 7]

/-- **`committedIndex` goes back**: the older message, now delivered, lowers it to its first entry. -/
theorem retransmission_uncommits : ∃ s s' : Cluster 3 ℕ, Reachable step anyStep init s ∧
    step s (.deliver 5) = some s' ∧ (s.raft 1).committedIndex = 2 ∧
      (s'.raft 1).committedIndex = 1 := by
  have hrun : ((run step (init : Cluster 3 ℕ) retransmission).bind fun s =>
      (step s (.deliver 5)).map fun s' => ((s.raft 1).committedIndex, (s'.raft 1).committedIndex)) =
        some (2, 1) := by decide +kernel
  obtain ⟨s, hs, hrun⟩ := Option.bind_eq_some_iff.1 hrun
  obtain ⟨s', hs', heq⟩ := Option.map_eq_some_iff.1 hrun
  obtain ⟨h₁, h₂⟩ := Prod.mk.inj heq
  exact ⟨s, s', Reachable.init.run hs, hs', h₁, h₂⟩

/-- Server `0`, elected again after a restart, sends two heartbeats to server `1`, which lacks its
entry, and both are rejected.  The first rejection makes it send that entry, and after `Start` once
more together with the next.  Server `1` takes over both messages, and the answer to the longer one
arrives first.  Then comes the second rejection, and `nextIndex` is `1` again. -/
def lateRejection : List (Event 3 ℕ) :=
  [.electionTimeout 0, .deliver 0, .deliver 1, .start 0 10, .crash 0, .electionTimeout 0, .deliver 3,
    .deliver 4, .heartbeatTimeout 0, .heartbeatTimeout 0, .deliver 4, .deliver 5, .deliver 6,
    .heartbeatTimeout 0, .start 0 20, .deliver 7, .deliver 8, .deliver 10, .deliver 6]

/-- **`matchIndex` goes back**: the answer to the shorter message counts again. -/
theorem lateRejection_unmatches : ∃ s s' : Cluster 3 ℕ, Reachable step anyStep init s ∧
    step s (.deliver 8) = some s' ∧
    (s.raft 0).identity = .leader ∧ (s'.raft 0).identity = .leader ∧
    (s'.raft 0).currentTerm = (s.raft 0).currentTerm ∧
    (s.raft 0).matchIndex 1 = 2 ∧ (s'.raft 0).matchIndex 1 = 1 := by
  have hrun : ((run step (init : Cluster 3 ℕ) lateRejection).bind fun s =>
      (step s (.deliver 8)).map fun s' => decide ((s.raft 0).identity = .leader ∧
        (s'.raft 0).identity = .leader ∧ (s'.raft 0).currentTerm = (s.raft 0).currentTerm ∧
        (s.raft 0).matchIndex 1 = 2 ∧ (s'.raft 0).matchIndex 1 = 1)) = some true := by
    decide +kernel
  obtain ⟨s, hs, hrun⟩ := Option.bind_eq_some_iff.1 hrun
  obtain ⟨s', hs', heq⟩ := Option.map_eq_some_iff.1 hrun
  exact ⟨s, s', Reachable.init.run hs, hs', of_decide_eq_true heq⟩

end Cluster

end RaftLabs
