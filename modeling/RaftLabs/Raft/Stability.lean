import RaftLabs.Raft.Compaction

/-!
# What a follower has acknowledged stays

A follower that has taken over an `ApplyEntries` has its leader's log up to the end of the entries,
and the leader counts on that.  Within the term no later message, in whatever order, and no snapshot
takes any of it away, in every run in which `Raft.HoldsHidden` is heeded.  Without it a server may
have delivered what its log no longer has, and its own snapshot then stands for the old entries.
-/

namespace RaftLabs

open Lib

variable {n : ℕ} {C : Type} [Inhabited C]

/-- The commands of the log, those that are compacted as the snapshot has them. -/
def Raft.commands (rf : Raft n C (List C)) : List C :=
  (rf.snapshot.map Snapshot.state).getD [] ++ rf.logs.tail.map LogEntry.command

omit [Inhabited C] in
lemma Raft.commands_eq {rf : Raft n C (List C)}
    (h : ∀ d, rf.snapshot = some d → d.state = d.covered.map LogEntry.command) :
    rf.commands = rf.logical.map LogEntry.command := by
  unfold commands logical
  rw [List.map_append]
  congr 1
  cases hd : rf.snapshot with
  | none => rfl
  | some d => exact h d hd

namespace Cluster

variable {s s' now : Cluster n C} {past rest : List (Cluster n C)}

/-- In the step from `s` to `s'` server `f` is sent `args`, and takes over its entries. -/
def TakesOver (s s' : Cluster n C) (f : Fin n) (args : ApplyEntriesArgs n C) : Prop :=
  ∃ e, s.step e = some s' ∧ s.deliversEntries e = some (f, args) ∧
    (s.raft f).currentTerm ≤ args.term ∧ (s.raft f).replicateCheck args = some true

/-- The answer is on its way. -/
lemma TakesOver.reply {f : Fin n} {args : ApplyEntriesArgs n C} (h : TakesOver s s' f args) :
    ∃ p ∈ s'.net, ∃ reply log, p.callee = f ∧ p.rpc = .applyEntriesReply args reply log ∧
      reply.success = true := by
  obtain ⟨e, hs, he, hterm, hcheck⟩ := h
  cases e with
  | deliver k =>
    obtain ⟨p, hp, hs⟩ := Option.bind_eq_some_iff.1 hs
    obtain ⟨q, hq, he⟩ := Option.bind_eq_some_iff.1 he
    cases hp.symm.trans hq
    split at he
    · rename_i hr
      cases he
      have happly := Raft.applyEntries_of_check hterm hcheck
      unfold receive at hs
      rw [hr] at hs
      change Option.map _ ((s.raft p.callee).applyEntries _) = some s' at hs
      rw [happly] at hs
      cases hs
      exact ⟨_, List.mem_append_right _ (List.mem_singleton_self _), _, _, rfl, rfl, rfl⟩
    · cases he
  | _ => cases he

/-- What is on record in a run is on record in its continuations. -/
lemma ledger_le_of_suffix (h : past <:+ rest) : (ledger past).Le (ledger rest) := by
  obtain ⟨later, rfl⟩ := h
  induction later with
  | nil => exact ⟨id, id⟩
  | cons s later ih => exact ⟨fun hl => (ih.1 hl).mono, fun ha => (ih.2 ha).later⟩

/-- **What a follower has acknowledged stays.**  `s'` is the state after it has taken over an
`ApplyEntries`, and `now` a later one in which the follower is in the same term, restarted or not: up
to the last of the entries its log, the snapshot included, is that of the leader of the term at any
moment of the run. -/
theorem acknowledged_entries_stable (htr : Run Raft.HoldsHidden (now :: rest)) {f : Fin n}
    {args : ApplyEntriesArgs n C} (htake : TakesOver s s' f args)
    (hlater : s' :: s :: past <:+ now :: rest) (hterm : (now.raft f).currentTerm = args.term) :
    args.prevLogIndex + args.entries.length ≤ (now.raft f).logical.length ∧
    ∀ led ∈ now :: rest, ∀ i, (led.raft i).identity = .leader →
      (led.raft i).currentTerm = args.term → ∀ j < args.prevLogIndex + args.entries.length,
        j < (led.raft i).logical.length →
          (now.raft f).logical[j]? = (led.raft i).logical[j]? ∧
          (now.raft f).commands[j]? = (led.raft i).commands[j]? := by
  -- the follower has acknowledged the leader's log as it was when the message was sent
  obtain ⟨p, hp, reply, log, hf, hr, hsucc⟩ := htake.reply
  have hcarries := (Run.inv (htr.suffix hlater)).carries p hp
  unfold Carries at hcarries
  rw [hr] at hcarries
  obtain ⟨-, l, hentries, hack, -⟩ := hcarries hsucc
  rw [hf] at hack
  have hle := ledger_le_of_suffix hlater
  have hinv := htr.inv
  have hsound := hinv.sound f
  have hpre : l <+: (now.raft f).logical := by
    obtain hpre | ⟨w, m, hlow, hhigh, -, -⟩ := hsound.attributed args.term l (hack.le hle)
    · exact hpre
    · have hstable : (now.raft f).stableTerm ≤ (now.raft f).currentTerm := (htr.ballot_ok f).2.1
      omega
  rw [hentries.length]
  refine ⟨hpre.length_le, fun led hled i hl hlt j hj hlen => ?_⟩
  have hsame : (now.raft f).logical[j]? = (led.raft i).logical[j]? := by
    rw [List.prefix_iff_getElem?.1 hpre j hj]
    rcases hinv.lawful.chain (hle.1 hentries.leader) ⟨led, hled, i, hl, hlt, rfl⟩ with h | h
    · rw [List.prefix_iff_getElem?.1 h j hj]
    · rw [List.getElem?_eq_getElem hlen, h.getElem]
  refine ⟨hsame, ?_⟩
  obtain ⟨before, hrun⟩ := htr.mem hled
  rw [Raft.commands_eq hsound.state, Raft.commands_eq ((Run.inv hrun).sound i).state,
    List.getElem?_map, List.getElem?_map, hsame]

/-- Server `1` has taken over one entry and then, in the same term, a second. -/
theorem acknowledged_entries_stable_second_entry : ∃ (now s s' : Cluster 3 ℕ) (past rest : _),
    Run Raft.HoldsHidden (now :: rest) ∧ s' :: s :: past <:+ now :: rest ∧
    TakesOver s s' 1 ⟨1, 0, 0, 0, [⟨10, 1⟩], 0⟩ ∧ (now.raft 1).currentTerm = 1 ∧
    (now.raft 1).logical.length = 2 ∧ (now.raft 0).identity = .leader ∧
    (now.raft 1).commands[0]? = (now.raft 0).commands[0]? := by
  have hrun : ((run (guarded step (Heeds Raft.HoldsHidden)) (init : Cluster 3 ℕ)
      [.electionTimeout 0, .deliver 0, .deliver 1, .start 0 10, .start 0 20]).bind fun s =>
      (step s (.deliver 1)).bind fun s' => (step s' (.deliver 2)).map fun now =>
        decide ((s.Heeds Raft.HoldsHidden (.deliver 1) ∧ s'.Heeds Raft.HoldsHidden (.deliver 2)) ∧
          (s.deliversEntries (.deliver 1) = some (1, ⟨1, 0, 0, 0, [⟨10, 1⟩], 0⟩) ∧
            (s.raft 1).currentTerm ≤ 1 ∧
            (s.raft 1).replicateCheck ⟨1, 0, 0, 0, [⟨10, 1⟩], 0⟩ = some true) ∧
          (now.raft 1).currentTerm = 1 ∧ (now.raft 1).logical.length = 2 ∧
          (now.raft 0).identity = .leader ∧ (now.raft 0).currentTerm = 1 ∧
          0 < (now.raft 0).logical.length)) = some true := by
    decide +kernel
  obtain ⟨s, hs, hrun⟩ := Option.bind_eq_some_iff.1 hrun
  obtain ⟨s', hs', hrun⟩ := Option.bind_eq_some_iff.1 hrun
  obtain ⟨now, hnow, heq⟩ := Option.map_eq_some_iff.1 hrun
  obtain ⟨⟨hok, hok'⟩, htake, hterm, hlen, hl, hlt, hpos⟩ := of_decide_eq_true heq
  obtain ⟨past, htr⟩ := Reachable.init.run_guarded hs
  have htr' : Run Raft.HoldsHidden (now :: s' :: s :: past) := .step _ (.step _ htr hok hs') hok' hnow
  have hsuf : s' :: s :: past <:+ now :: s' :: s :: past := List.suffix_cons _ _
  have htake : TakesOver s s' 1 ⟨1, 0, 0, 0, [⟨10, 1⟩], 0⟩ := ⟨_, hs', htake⟩
  obtain ⟨-, h⟩ := acknowledged_entries_stable htr' htake hsuf hterm
  exact ⟨now, s, s', past, _, htr', hsuf, htake, hterm, hlen, hl,
    (h now List.mem_cons_self 0 hl hlt 0 (by decide) hpos).2⟩

/-- **Without the condition what was acknowledged is lost**: in the run `overwritten` server `0` takes
over `30` at index `2` from the leader of its term, and then snapshots there what it has delivered. -/
theorem overwritten_not_stable : ∃ s s' now : Cluster 3 ℕ, Reachable step anyStep init s ∧
    TakesOver s s' 0 ⟨2, 1, 1, 1, [⟨30, 2⟩], 1⟩ ∧ (s'.raft 0).commands = [10, 30] ∧
    step s' (.snapshot 0 2) = some now ∧ (now.raft 0).currentTerm = 2 ∧
    (now.raft 1).identity = .leader ∧ (now.raft 1).currentTerm = 2 ∧
    (now.raft 1).commands = [10, 30] ∧ (now.raft 0).commands = [10, 20] := by
  have hrun : ((run step (init : Cluster 3 ℕ) overwritten.dropLast).bind fun s =>
      (step s (.deliver 0)).bind fun s' => (step s' (.snapshot 0 2)).map fun now =>
        decide ((s.deliversEntries (.deliver 0) = some (0, ⟨2, 1, 1, 1, [⟨30, 2⟩], 1⟩) ∧
            (s.raft 0).currentTerm ≤ 2 ∧
            (s.raft 0).replicateCheck ⟨2, 1, 1, 1, [⟨30, 2⟩], 1⟩ = some true) ∧
          (s'.raft 0).commands = [10, 30] ∧ (now.raft 0).currentTerm = 2 ∧
          (now.raft 1).identity = .leader ∧ (now.raft 1).currentTerm = 2 ∧
          (now.raft 1).commands = [10, 30] ∧ (now.raft 0).commands = [10, 20])) = some true := by
    decide +kernel
  obtain ⟨s, hs, hrun⟩ := Option.bind_eq_some_iff.1 hrun
  obtain ⟨s', hs', hrun⟩ := Option.bind_eq_some_iff.1 hrun
  obtain ⟨now, hnow, heq⟩ := Option.map_eq_some_iff.1 hrun
  obtain ⟨htake, hcmd, hrest⟩ := of_decide_eq_true heq
  exact ⟨s, s', now, Reachable.init.run hs, ⟨_, hs', htake⟩, hcmd, hnow, hrest⟩

end Cluster

end RaftLabs
