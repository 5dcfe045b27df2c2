import RaftLabs.Raft.Commit
import RaftLabs.Raft.Leadership

/-!
# Replication

The records of a run, as a `Lib.Ledger`: the logical logs of the leaders of each term (`LeaderLog`)
and what each server has held in common with them (`Ack`).  `Sound` is the invariant of a server
over these records, and this module says how it survives the three things that can happen to a
logical log: nothing (`Sound.quiet`, which compaction and restarts are, too), the leader appends
(`Sound.append`), a follower adopts a leader's log or snapshot (`Sound.adopt`).
-/

set_option linter.unusedSectionVars false

namespace RaftLabs

open Lib

variable {n : ℕ} {C : Type} [Inhabited C]

namespace Cluster

variable {H : Raft n C (List C) → ApplyEntriesArgs n C → Prop} {s s' : Cluster n C}
  {past tr : List (Cluster n C)}

/-! ### The records of a run -/

/-- The leader of term `t` has had the logical log `l`. -/
def LeaderLog (tr : List (Cluster n C)) (t : ℕ) (l : List (LogEntry C)) : Prop :=
  ∃ s ∈ tr, ∃ i, (s.raft i).identity = .leader ∧ (s.raft i).currentTerm = t ∧
    (s.raft i).logical = l

/-- Server `c`, candidate in term `t`, has had the logical log `l`. -/
def CandidateLog (tr : List (Cluster n C)) (c : Fin n) (t : ℕ) (l : List (LogEntry C)) : Prop :=
  ∃ s ∈ tr, (s.raft c).identity = .candidate ∧ (s.raft c).currentTerm = t ∧
    (s.raft c).logical = l

/-- With term `t` in its stable storage, server `v` has held the beginning `a` of a log that the
leader of `t` had had by then. -/
inductive Ack : List (Cluster n C) → Fin n → ℕ → List (LogEntry C) → Prop
  | now {s : Cluster n C} {past : List (Cluster n C)} {v : Fin n} {a l : List (LogEntry C)}
      (hl : LeaderLog (s :: past) (s.raft v).stableTerm l) (hal : a <+: l)
      (ha : a <+: (s.raft v).logical) : Ack (s :: past) v (s.raft v).stableTerm a
  | later {s : Cluster n C} {past : List (Cluster n C)} {v : Fin n} {t : ℕ}
      {a : List (LogEntry C)} (h : Ack past v t a) : Ack (s :: past) v t a

def ledger (tr : List (Cluster n C)) : Ledger (Fin n) (LogEntry C) := ⟨LeaderLog tr, Ack tr⟩

lemma LeaderLog.mono {t : ℕ} {l : List (LogEntry C)} (h : LeaderLog past t l) :
    LeaderLog (s :: past) t l := by
  obtain ⟨s₁, hs₁, h⟩ := h
  exact ⟨s₁, List.mem_cons_of_mem _ hs₁, h⟩

lemma CandidateLog.mono {c : Fin n} {t : ℕ} {l : List (LogEntry C)} (h : CandidateLog past c t l) :
    CandidateLog (s :: past) c t l := by
  obtain ⟨s₁, hs₁, h⟩ := h
  exact ⟨s₁, List.mem_cons_of_mem _ hs₁, h⟩

lemma LeaderLog.cases {t : ℕ} {l : List (LogEntry C)} (h : LeaderLog (s :: past) t l) :
    LeaderLog past t l ∨ ∃ i, (s.raft i).identity = .leader ∧ (s.raft i).currentTerm = t ∧
      (s.raft i).logical = l := by
  obtain ⟨s₁, hs₁, h⟩ := h
  rcases List.mem_cons.1 hs₁ with rfl | hs₁
  · exact Or.inr h
  · exact Or.inl ⟨s₁, hs₁, h⟩

lemma ledger_le : (ledger past).Le (ledger (s :: past)) := ⟨.mono, .later⟩

/-- What has been acknowledged by now was acknowledged before or is still held. -/
lemma acked_cases {v : Fin n} {t : ℕ} {c : List (LogEntry C)}
    (h : (ledger (s :: past)).Acked v t c) : (ledger past).Acked v t c ∨
      (t = (s.raft v).stableTerm ∧ c <+: (s.raft v).logical) := by
  obtain ⟨a, ha, hca⟩ := h
  cases ha with
  | now hl hal ha => exact Or.inr ⟨rfl, hca.trans ha⟩
  | later h => exact Or.inl ⟨a, h, hca⟩

/-- Whoever acknowledges something has it from a leader of that term. -/
lemma Ack.leader {v : Fin n} {t : ℕ} {a : List (LogEntry C)} (h : Ack tr v t a) :
    ∃ l, LeaderLog tr t l ∧ a <+: l := by
  induction h with
  | now hl hal _ => exact ⟨_, hl, hal⟩
  | later _ ih =>
    obtain ⟨l, hl, hal⟩ := ih
    exact ⟨l, hl.mono, hal⟩

lemma Ack.made {v : Fin n} {t : ℕ} {a : List (LogEntry C)} (h : Ack tr v t a) :
    ∃ s ∈ tr, t = (s.raft v).stableTerm := by
  induction h with
  | now _ _ _ => exact ⟨_, List.mem_cons_self, rfl⟩
  | later _ ih =>
    obtain ⟨s, hs, h⟩ := ih
    exact ⟨s, List.mem_cons_of_mem _ hs, h⟩

lemma Ack.le_stable {v : Fin n} {t : ℕ} {a : List (LogEntry C)} (h : Ack (s :: past) v t a)
    (htr : Run H (s :: past)) : t ≤ (s.raft v).stableTerm := by
  obtain ⟨s₁, hs₁, rfl⟩ := h.made
  exact (htr.ballot_le v hs₁).1

lemma CandidateLog.le_stable {c : Fin n} {t : ℕ} {l : List (LogEntry C)}
    (h : CandidateLog (s :: past) c t l) (htr : Run H (s :: past)) :
    t ≤ (s.raft c).stableTerm := by
  obtain ⟨s₁, hs₁, hid, rfl, -⟩ := h
  obtain ⟨rest, hrun⟩ := htr.mem hs₁
  have hok := (Run.ballot_ok hrun c).2
  have hsync := hok.inSync_of_active (fun hf => by cases hid.symm.trans hf)
  have heq : (s₁.raft c).stableTerm = (s₁.raft c).currentTerm := hsync.1
  rw [← heq]
  exact (htr.ballot_le c hs₁).1

lemma Run.stable_le (htr : Run H (s' :: s :: past)) (i : Fin n) :
    (s.raft i).stableTerm ≤ (s'.raft i).stableTerm :=
  (htr.ballot_le i (List.mem_cons_of_mem _ List.mem_cons_self)).1

/-- The logs of the leader of `t` that are new in the last state are those of server `i`. -/
lemma LeaderLog.of_leader (htr : Run H (s :: past)) {i : Fin n} {l : List (LogEntry C)}
    (hi : (s.raft i).identity = .leader) (h : LeaderLog (s :: past) (s.raft i).currentTerm l) :
    LeaderLog past (s.raft i).currentTerm l ∨ l = (s.raft i).logical := by
  rcases h.cases with h | ⟨j, hj, hterm, rfl⟩
  · exact Or.inl h
  · obtain rfl := htr.leader_unique List.mem_cons_self List.mem_cons_self hj hi hterm
    exact Or.inr rfl

/-- When a server becomes leader, its term has had no leader. -/
lemma no_leader_before (htr : Run H (s' :: s :: past)) {i : Fin n}
    (hl' : (s'.raft i).identity = .leader) (hc : (s.raft i).identity = .candidate)
    (hterm : (s'.raft i).currentTerm = (s.raft i).currentTerm) (l : List (LogEntry C)) :
    ¬ LeaderLog (s :: past) (s.raft i).currentTerm l := by
  rintro ⟨s₁, hs₁, j, hl₁, ht₁, -⟩
  obtain rfl : j = i := htr.leader_unique (List.mem_cons_of_mem _ hs₁) List.mem_cons_self hl₁ hl'
    (ht₁.trans hterm.symm)
  rcases Run.reigns_now htr.tail hs₁ hl₁ ht₁ with h | h
  · rw [hc] at h
    cases h
  · rw [hc] at h
    cases h

/-! ### The invariant of a server -/

/-- The first `k` entries are there, and known to be committed. -/
def Held (tr : List (Cluster n C)) (rf : Raft n C (List C)) (k : ℕ) : Prop :=
  k ≤ rf.logical.length ∧ (ledger tr).Safe LogEntry.term rf.stableTerm (rf.logical.take k)

/-- What a leader has in `matchIndex j` is in its snapshot, or `j` has acknowledged it. -/
def Matches (tr : List (Cluster n C)) (rf : Raft n C (List C)) (j : Fin n) : Prop :=
  rf.matchIndex j ≤ rf.lastIncludedIndex ∨
    (rf.matchIndex j ≤ rf.logical.length ∧
      (ledger tr).Acked j rf.currentTerm (rf.logical.take (rf.matchIndex j)))

/-- What holds of server `i` after the run `tr`. -/
structure Sound (tr : List (Cluster n C)) (i : Fin n) (rf : Raft n C (List C)) : Prop where
  covered : rf.store.Covered
  state : ∀ d, rf.snapshot = some d → d.state = d.covered.map LogEntry.command
  genuine : (ledger tr).Genuine LogEntry.term rf.logical
  bound : ∀ p, p <+: rf.logical → lastTerm LogEntry.term p ≤ rf.stableTerm
  /-- What the server has acknowledged is still there, unless a later leader did not have it. -/
  attributed : ∀ u c, (ledger tr).Acked i u c → c <+: rf.logical ∨
    ∃ w m, u < w ∧ w ≤ rf.stableTerm ∧ LeaderLog tr w m ∧ ¬ c <+: m
  included : Held tr rf rf.lastIncludedIndex
  committed : Held tr rf rf.committedIndex
  applied : Held tr rf rf.lastApplied
  candidate : rf.identity = .candidate →
    (∀ p, p <+: rf.logical → lastTerm LogEntry.term p < rf.currentTerm) ∧
    ∀ e, CandidateLog tr i rf.currentTerm e → e = rf.logical
  leader : rf.identity = .leader →
    (∀ l, LeaderLog tr rf.currentTerm l → l <+: rf.logical) ∧ ∀ j, Matches tr rf j

lemma Held.of_le {rf : Raft n C (List C)} {k m : ℕ} (h : Held tr rf k) (hm : m ≤ k) :
    Held tr rf m :=
  ⟨hm.trans h.1, h.2.piece (List.take_prefix_take_left hm)⟩

lemma Held.next {rf rf' : Raft n C (List C)} {k : ℕ} (h : Held past rf k)
    (hst : rf.stableTerm ≤ rf'.stableTerm) (hpre : rf.logical.take k <+: rf'.logical) :
    Held (s :: past) rf' k := by
  have hlen : (rf.logical.take k).length = k := by simpa using h.1
  have heq : rf.logical.take k = rf'.logical.take k := by
    have := List.prefix_iff_eq_take.1 hpre
    rwa [hlen] at this
  exact ⟨hlen ▸ hpre.length_le, heq ▸ (h.2.mono hst).le ledger_le⟩

lemma Matches.next {rf rf' : Raft n C (List C)} {j : Fin n} (h : Matches past rf j)
    (hm : rf'.matchIndex j = rf.matchIndex j)
    (hincl : rf.lastIncludedIndex ≤ rf'.lastIncludedIndex)
    (hterm : rf'.currentTerm = rf.currentTerm) (hpre : rf.logical <+: rf'.logical) :
    Matches (s :: past) rf' j := by
  unfold Matches
  rw [hm, hterm]
  rcases h with h | ⟨hlen, hack⟩
  · exact Or.inl (h.trans hincl)
  · obtain ⟨rest, hrest⟩ := hpre
    refine Or.inr ⟨hlen.trans (by rw [← hrest]; simp), ?_⟩
    rw [← hrest, List.take_append_of_le_length hlen]
    exact hack.le ledger_le

/-- The acknowledgements of a server, when its log keeps what it had. -/
lemma Sound.attributed_next (htr : Run H (s' :: s :: past)) {i : Fin n}
    (h : Sound (s :: past) i (s.raft i)) (hpre : (s.raft i).logical <+: (s'.raft i).logical) :
    ∀ u c, (ledger (s' :: s :: past)).Acked i u c → c <+: (s'.raft i).logical ∨
      ∃ w m, u < w ∧ w ≤ (s'.raft i).stableTerm ∧ LeaderLog (s' :: s :: past) w m ∧ ¬ c <+: m := by
  intro u c hack
  rcases acked_cases hack with hack | ⟨-, hc⟩
  · rcases h.attributed u c hack with hc | ⟨w, m, h₁, h₂, h₃, h₄⟩
    · exact Or.inl (hc.trans hpre)
    · exact Or.inr ⟨w, m, h₁, h₂.trans (htr.stable_le i), h₃.mono, h₄⟩
  · exact Or.inl hc

/-- **Nothing happens to the logical log.** -/
theorem Sound.quiet (htr : Run H (s' :: s :: past)) {i : Fin n}
    (h : Sound (s :: past) i (s.raft i)) (hlog : (s'.raft i).logical = (s.raft i).logical)
    (hcov : (s'.raft i).store.Covered)
    (hstate : ∀ d, (s'.raft i).snapshot = some d → d.state = d.covered.map LogEntry.command)
    (hincl : Held (s' :: s :: past) (s'.raft i) (s'.raft i).lastIncludedIndex)
    (hcom : Held (s' :: s :: past) (s'.raft i) (s'.raft i).committedIndex)
    (happ : Held (s' :: s :: past) (s'.raft i) (s'.raft i).lastApplied)
    (hmatch : (s'.raft i).identity = .leader → ∀ j, Matches (s' :: s :: past) (s'.raft i) j) :
    Sound (s' :: s :: past) i (s'.raft i) := by
  obtain ⟨e, -, hstep⟩ := htr.last
  have hb := step_ballot hstep i
  refine ⟨hcov, hstate, hlog ▸ h.genuine.le ledger_le, ?_,
    h.attributed_next htr (hlog ▸ List.prefix_refl _), hincl, hcom, happ, ?_, ?_⟩
  · rw [hlog]
    exact fun p hp => (h.bound p hp).trans (htr.stable_le i)
  · intro hid
    rw [hlog]
    have hnew : ∀ e, CandidateLog (s' :: s :: past) i (s'.raft i).currentTerm e →
        CandidateLog (s :: past) i (s'.raft i).currentTerm e ∨ e = (s.raft i).logical := by
      rintro e ⟨s₁, hs₁, h₁, h₂, rfl⟩
      rcases List.mem_cons.1 hs₁ with rfl | hs₁
      · exact Or.inr hlog
      · exact Or.inl ⟨s₁, hs₁, h₁, h₂, rfl⟩
    have hle : (s.raft i).stableTerm ≤ (s.raft i).currentTerm := (Run.ballot_ok htr.tail i).2.le
    rcases hb.candidate_cases hid with ⟨hc, hterm⟩ | hlt
    · obtain ⟨h₁, h₂⟩ := h.candidate hc
      rw [show (s'.raft i).currentTerm = (s.raft i).currentTerm from hterm] at hnew ⊢
      exact ⟨h₁, fun e he => (hnew e he).elim (h₂ e) id⟩
    · -- a new candidacy: the term is above everything so far
      refine ⟨fun p hp => (h.bound p hp).trans_lt (hle.trans_lt hlt), fun e he => ?_⟩
      rcases hnew e he with he | rfl
      · have := (he.le_stable htr.tail).trans hle
        exact absurd hlt (not_lt.2 this)
      · rfl
  · refine fun hid => ⟨fun l hl => ?_, hmatch hid⟩
    obtain ⟨hid₀, hterm⟩ := hb.leader_cases hid
    rcases hl.of_leader htr hid with hl | rfl
    · rw [show (s'.raft i).currentTerm = (s.raft i).currentTerm from hterm] at hl
      rcases hid₀ with hid₀ | hid₀
      · exact hlog ▸ (h.leader hid₀).1 l hl
      · exact absurd hl (no_leader_before htr hid hid₀ hterm l)
    · exact List.prefix_refl _

/-- **The leader appends an entry of its term.** -/
theorem Sound.append (htr : Run H (s' :: s :: past)) {i : Fin n} {e : LogEntry C}
    (h : Sound (s :: past) i (s.raft i)) (hlog : (s'.raft i).logical = (s.raft i).logical ++ [e])
    (hterm : (s'.raft i).currentTerm = (s.raft i).currentTerm)
    (he : e.term = (s'.raft i).currentTerm) (hl : (s.raft i).identity = .leader)
    (hl' : (s'.raft i).identity = .leader) (hcov : (s'.raft i).store.Covered)
    (hsnap : (s'.raft i).snapshot = (s.raft i).snapshot)
    (hincl : (s'.raft i).lastIncludedIndex = (s.raft i).lastIncludedIndex)
    (hcom : (s'.raft i).committedIndex = (s.raft i).committedIndex)
    (happ : (s'.raft i).lastApplied = (s.raft i).lastApplied)
    (hmatch : (s'.raft i).matchIndex = (s.raft i).matchIndex) :
    Sound (s' :: s :: past) i (s'.raft i) := by
  have hst := htr.stable_le i
  have hpre : (s.raft i).logical <+: (s'.raft i).logical := hlog ▸ List.prefix_append _ _
  have hheld : ∀ {k}, Held (s :: past) (s.raft i) k → Held (s' :: s :: past) (s'.raft i) k :=
    fun hk => hk.next hst ((List.take_prefix _ _).trans hpre)
  have hsync : (s'.raft i).stableTerm = (s'.raft i).currentTerm :=
    ((Run.ballot_ok htr i).2.inSync_of_active fun hf => by cases hl'.symm.trans hf).1
  have hcases : ∀ {p}, p <+: (s'.raft i).logical → p <+: (s.raft i).logical ∨
      p = (s'.raft i).logical := by
    intro p hp
    rw [hlog] at hp ⊢
    exact (List.prefix_concat_iff.1 hp).symm
  have hlast : lastTerm LogEntry.term (s'.raft i).logical = (s'.raft i).currentTerm := by
    rw [hlog, lastTerm_concat, he]
  obtain ⟨hlogs, hmatches⟩ := h.leader hl
  refine ⟨hcov, fun d hd => h.state d (hsnap ▸ hd), ?_, ?_, h.attributed_next htr hpre,
    hincl ▸ hheld h.included, hcom ▸ hheld h.committed, happ ▸ hheld h.applied, ?_, ?_⟩
  · intro p hp hne
    rcases hcases hp with hp | rfl
    · exact (h.genuine p hp hne).mono
    · rw [hlast]
      exact ⟨s', List.mem_cons_self, i, hl', rfl, rfl⟩
  · intro p hp
    rcases hcases hp with hp | rfl
    · exact (h.bound p hp).trans hst
    · exact (hlast.trans hsync.symm).le
  · intro hc
    rw [hl'] at hc
    cases hc
  · refine fun _ => ⟨fun l hll => ?_, fun j => (hmatches j).next (congrFun hmatch j) hincl.ge hterm hpre⟩
    rcases hll.of_leader htr hl' with hll | rfl
    · exact (hlogs l (hterm ▸ hll)).trans hpre
    · exact List.prefix_refl _

/-- A follower that adopts what the leader of its new term sent keeps what is known to be
committed. -/
lemma Held.adopt (htr : Run H (s' :: s :: past))
    (hL : (ledger (s :: past)).Lawful LogEntry.term) {i : Fin n} {q m : List (LogEntry C)}
    (hadopt : Ledger.Adopts (s.raft i).logical (s'.raft i).logical q) (hq : q <+: m)
    (hm : LeaderLog (s :: past) (s'.raft i).stableTerm m) {k : ℕ}
    (hk : Held (s :: past) (s.raft i) k) : Held (s' :: s :: past) (s'.raft i) k :=
  hk.next (htr.stable_le i)
    (hL.adopt_safe hadopt hq hm (List.take_prefix _ _) (hk.2.mono (htr.stable_le i)))

/-- **A follower adopts what the leader of its new term sent.** -/
theorem Sound.adopt (htr : Run H (s' :: s :: past))
    (hL : (ledger (s :: past)).Lawful LogEntry.term) {i : Fin n} {q m : List (LogEntry C)}
    (h : Sound (s :: past) i (s.raft i))
    (hadopt : Ledger.Adopts (s.raft i).logical (s'.raft i).logical q) (hq : q <+: m)
    (hm : LeaderLog (s :: past) (s'.raft i).stableTerm m)
    (hf : (s'.raft i).identity = .follower) (hcov : (s'.raft i).store.Covered)
    (hstate : ∀ d, (s'.raft i).snapshot = some d → d.state = d.covered.map LogEntry.command)
    (hincl : Held (s' :: s :: past) (s'.raft i) (s'.raft i).lastIncludedIndex)
    (hcom : Held (s' :: s :: past) (s'.raft i) (s'.raft i).committedIndex)
    (happ : Held (s' :: s :: past) (s'.raft i) (s'.raft i).lastApplied) :
    Sound (s' :: s :: past) i (s'.raft i) := by
  have hst := htr.stable_le i
  have hcases : (s'.raft i).logical = (s.raft i).logical ∨ (s'.raft i).logical = q := by
    rcases hadopt with ⟨-, h⟩ | ⟨-, h⟩
    · exact Or.inl h
    · exact Or.inr h
  refine ⟨hcov, hstate, ?_, ?_, ?_, hincl, hcom, happ, ?_, ?_⟩
  · rcases hcases with h' | h'
    · rw [h']
      exact h.genuine.le ledger_le
    · rw [h']
      exact ((hL.genuine hm).piece hq).le ledger_le
  · intro p hp
    rcases hcases with h' | h'
    · exact (h.bound p (h' ▸ hp)).trans hst
    · exact hL.bound hm ((h' ▸ hp : p <+: q).trans hq)
  · intro u c hack
    rcases acked_cases hack with hack | ⟨-, hc⟩
    · rcases h.attributed u c hack with hc | ⟨w, m', h₁, h₂, h₃, h₄⟩
      · -- the server may lose it now, but then its new leader does not have it
        obtain ⟨a, ha, hca⟩ := hack
        obtain ⟨m', hm', ham⟩ := ha.leader
        have hu : u ≤ (s'.raft i).stableTerm := (ha.le_stable htr.tail).trans hst
        rcases hL.adopt_acked hadopt hq hm hu hc hm' (hca.trans ham) with hc | ⟨hlt, hnot⟩
        · exact Or.inl hc
        · exact Or.inr ⟨_, m, hlt, le_rfl, hm.mono, hnot⟩
      · exact Or.inr ⟨w, m', h₁, h₂.trans hst, h₃.mono, h₄⟩
    · exact Or.inl hc
  · intro hc
    rw [hf] at hc
    cases hc
  · intro hl
    rw [hf] at hl
    cases hl

/-! ### What a vote says about the logs of the voters -/

/-- `v`, in term `t` or later, had a log that `e` is at least as up to date as. -/
def Supports (tr : List (Cluster n C)) (v : Fin n) (t : ℕ) (e : List (LogEntry C)) : Prop :=
  (∃ s ∈ tr, t ≤ (s.raft v).stableTerm) ∧ ∃ lv, (ledger tr).Genuine LogEntry.term lv ∧
    UpToDate LogEntry.term e lv ∧ (ledger tr).Attributed v t lv

/-- The vote of `v` for `c` in term `t`: `v` supports the log of the candidate, unless the term had
a leader already. -/
def Backed (tr : List (Cluster n C)) (v : Fin n) (t : ℕ) (c : Fin n) : Prop :=
  ∃ e, CandidateLog tr c t e ∧ ((∃ l, LeaderLog tr t l) ∨ Supports tr v t e)

/-- No acknowledgement of an earlier term is new once the vote is cast. -/
lemma Supports.mono (htr : Run H (s' :: s :: past)) {v : Fin n} {t : ℕ} {e : List (LogEntry C)}
    (h : Supports (s :: past) v t e) : Supports (s' :: s :: past) v t e := by
  obtain ⟨⟨s₁, hs₁, ht⟩, lv, hg, hup, hattr⟩ := h
  refine ⟨⟨s₁, List.mem_cons_of_mem _ hs₁, ht⟩, lv, hg.le ledger_le, hup, fun u c hu hack => ?_⟩
  rcases acked_cases hack with hack | ⟨rfl, -⟩
  · rcases hattr u c hu hack with hc | ⟨w, m, h₁, h₂, h₃, h₄⟩
    · exact Or.inl hc
    · exact Or.inr ⟨w, m, h₁, h₂, LeaderLog.mono h₃, h₄⟩
  · have : (s₁.raft v).stableTerm ≤ (s'.raft v).stableTerm :=
      (htr.ballot_le v (List.mem_cons_of_mem _ hs₁)).1
    omega

/-- A server that casts its vote in term `t` supports every log at least as up to date as its
own. -/
lemma Sound.supports {v : Fin n} {t : ℕ}
    {e : List (LogEntry C)} (h : Sound (s :: past) v (s.raft v))
    (ht : (s'.raft v).stableTerm = t) (hle : (s.raft v).stableTerm ≤ t)
    (hno : (s.raft v).stableTerm = t → ¬ ∃ l, LeaderLog (s :: past) t l)
    (hup : UpToDate LogEntry.term e (s.raft v).logical) : Supports (s' :: s :: past) v t e := by
  refine ⟨⟨s', List.mem_cons_self, ht.ge⟩, _, h.genuine.le ledger_le, hup, fun u c hu hack => ?_⟩
  rcases acked_cases hack with hack | ⟨rfl, -⟩
  · rcases h.attributed u c hack with hc | ⟨w, m, h₁, h₂, h₃, h₄⟩
    · exact Or.inl hc
    · refine Or.inr ⟨w, m, h₁, lt_of_le_of_ne (h₂.trans hle) ?_, h₃.mono, h₄⟩
      rintro rfl
      exact hno (le_antisymm hle h₂) ⟨m, h₃⟩
  · omega

/-- How the leaders got elected. -/
def Elections (tr : List (Cluster n C)) : Prop :=
  ∀ t l, LeaderLog tr t l → ∃ e, e <+: l ∧ LeaderLog tr t e ∧ lastTerm LogEntry.term e < t ∧
    ∃ Q : Finset (Fin n), Majority Q ∧ ∀ v ∈ Q, Supports tr v t e

/-- **Elections, one step further**: a new leader has the support of a majority. -/
theorem Elections.step (htr : Run H (s' :: s :: past)) (h : Elections (s :: past))
    (htally : Tally Backed s past) (hs : ∀ i, Sound (s :: past) i (s.raft i))
    (hs' : ∀ i, Sound (s' :: s :: past) i (s'.raft i)) : Elections (s' :: s :: past) := by
  intro t l hl
  have hold : ∀ {m}, LeaderLog (s :: past) t m → m <+: l → ∃ e, e <+: l ∧
      LeaderLog (s' :: s :: past) t e ∧ lastTerm LogEntry.term e < t ∧
      ∃ Q : Finset (Fin n), Majority Q ∧ ∀ v ∈ Q, Supports (s' :: s :: past) v t e := by
    intro m hm hml
    obtain ⟨e, hem, he, hlt, Q, hQ, hsup⟩ := h t m hm
    exact ⟨e, hem.trans hml, he.mono, hlt, Q, hQ, fun v hv => (hsup v hv).mono htr⟩
  rcases hl.cases with hl | ⟨i, hid, rfl, rfl⟩
  · exact hold hl (List.prefix_refl _)
  · by_cases hid₀ : (s.raft i).identity = .leader
    · -- it led this term before
      obtain ⟨e, -, hstep⟩ := htr.last
      have hterm : (s'.raft i).currentTerm = (s.raft i).currentTerm :=
        ((step_ballot hstep i).leader_cases hid).2
      have hm : LeaderLog (s :: past) (s'.raft i).currentTerm (s.raft i).logical :=
        ⟨s, List.mem_cons_self, i, hid₀, hterm.symm, rfl⟩
      exact hold hm (((hs' i).leader hid).1 _ hm.mono)
    · obtain ⟨hc, hterm, hlog, Q, hQ, hback⟩ := htally.quorum htr hid hid₀
      obtain ⟨hlt, huniq⟩ := (hs i).candidate hc
      rw [hterm, hlog]
      refine ⟨_, List.prefix_refl _, ⟨s', List.mem_cons_self, i, hid, hterm, hlog⟩,
        hlt _ (List.prefix_refl _), Q, hQ, fun v hv => ?_⟩
      obtain ⟨e, he, ⟨m, hm⟩ | hsup⟩ := hback v hv
      · exact absurd hm (no_leader_before htr hid hc hterm m)
      · rw [← huniq e he]
        exact hsup.mono htr

/-- **The records stay lawful.** -/
theorem lawful_step (htr : Run H (s' :: s :: past))
    (hL : (ledger (s :: past)).Lawful LogEntry.term) (he : Elections (s' :: s :: past))
    (hs' : ∀ i, Sound (s' :: s :: past) i (s'.raft i)) :
    (ledger (s' :: s :: past)).Lawful LogEntry.term where
  chain := by
    intro t l l' hl hl'
    rcases LeaderLog.cases hl with hl₀ | ⟨i, hid, rfl, rfl⟩
    · rcases LeaderLog.cases hl' with hl₀' | ⟨i, hid, rfl, rfl⟩
      · exact hL.chain hl₀ hl₀'
      · exact Or.inl (((hs' i).leader hid).1 l hl)
    · exact Or.inr (((hs' i).leader hid).1 l' hl')
  genuine := by
    intro t l hl
    rcases LeaderLog.cases hl with hl | ⟨i, -, -, rfl⟩
    · exact (hL.genuine hl).le ledger_le
    · exact (hs' i).genuine
  bound := by
    intro t l p hl hp
    rcases LeaderLog.cases hl with hl | ⟨i, -, rfl, rfl⟩
    · exact hL.bound hl hp
    · exact ((hs' i).bound p hp).trans (Run.ballot_ok htr i).2.le
  election := by
    intro t l hl
    obtain ⟨e, hel, he, hlt, Q, hQ, hsup⟩ := he t l hl
    exact ⟨e, hel, he, hlt, Q, hQ, fun v hv => (hsup v hv).2⟩

end Cluster

end RaftLabs
