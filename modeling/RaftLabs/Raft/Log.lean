import RaftLabs.Lib.LeaderLogs
import RaftLabs.Raft.Ballot

/-!
# The log of a server

Closed forms of everything the code does to `Logs`: what `ApplyEntries` makes of the entries it is
sent, what compaction keeps, and what is in stable storage.  `Raft.Shape` is what holds of the log of
every server in every run: slot `0` is there, `DiscardCount` is `lastIncludedIndex`, and stable
storage has the log and the snapshot that are in memory.  `Raft.Keeps` says which logical log a
server holds a window of.
-/

set_option linter.unusedSectionVars false

namespace RaftLabs

open Lib

variable {n : ℕ} {C σ : Type} [Inhabited C]

namespace Raft

variable {rf rf' : Raft n C σ}

/-! ### Splicing entries into a log -/

section Splice

variable {logs : List (LogEntry C)} {es : List (LogEntry C)} {start : ℕ}

/-- Wherever both have an entry, the log from `start` on and the entries agree on the term. -/
def Agree (logs : List (LogEntry C)) (start : ℕ) (es : List (LogEntry C)) : Prop :=
  ∀ k x e, logs[start + k]? = some x → es[k]? = some e → x.term = e.term

/-- At `k` the log from `start` on and the entries have different terms. -/
def Conflict (logs : List (LogEntry C)) (start : ℕ) (es : List (LogEntry C)) (k : ℕ) : Prop :=
  ∃ x e, logs[start + k]? = some x ∧ es[k]? = some e ∧ x.term ≠ e.term

lemma dropConflict_cases (logs es : List (LogEntry C)) (start : ℕ) :
    (Agree logs start es ∧ dropConflict logs start es = logs) ∨
    ∃ k, Conflict logs start es k ∧ dropConflict logs start es = logs.take (start + k) := by
  induction es generalizing start with
  | nil =>
    refine Or.inl ⟨fun k x e _ he => ?_, rfl⟩
    simp at he
  | cons e es ih =>
    unfold dropConflict
    by_cases hlen : start < logs.length
    · rw [if_pos hlen]
      have hget : logs[start]? = some logs[start] := List.getElem?_eq_getElem hlen
      have hgetD : logs.getD start default = logs[start] := by simp [hlen]
      rw [hgetD]
      by_cases hne : logs[start].term ≠ e.term
      · rw [if_pos hne]
        exact Or.inr ⟨0, ⟨logs[start], e, hget, rfl, hne⟩, rfl⟩
      · rw [if_neg hne]
        push Not at hne
        obtain ⟨hagree, h⟩ | ⟨k, ⟨x, f, hx, hf, hxf⟩, h⟩ := ih (start + 1)
        · refine Or.inl ⟨fun k x f hx hf => ?_, h⟩
          cases k with
          | zero =>
            rw [Nat.add_zero, hget] at hx
            cases hx
            cases hf
            exact hne
          | succ k =>
            refine hagree k x f ?_ hf
            rwa [show start + 1 + k = start + (k + 1) by omega]
        · refine Or.inr ⟨k + 1, ⟨x, f, ?_, hf, hxf⟩, ?_⟩
          · rwa [show start + (k + 1) = start + 1 + k by omega]
          · rw [h, show start + (k + 1) = start + 1 + k by omega]
    · rw [if_neg hlen]
      refine Or.inl ⟨fun k x f hx _ => ?_, rfl⟩
      obtain ⟨hk, -⟩ := List.getElem?_eq_some_iff.1 hx
      omega

lemma copyEntries_eq (hs : start ≤ logs.length) :
    copyEntries logs start es = logs.take start ++ es ++ logs.drop (start + es.length) := by
  induction es generalizing logs start with
  | nil => simp [copyEntries]
  | cons e es ih =>
    unfold copyEntries
    by_cases hlen : logs.length ≤ start
    · have hst : start = logs.length := le_antisymm hs hlen
      subst hst
      rw [if_pos le_rfl, ih (by simp), List.take_of_length_le (by simp),
        List.drop_eq_nil_of_le (by simp), List.drop_eq_nil_of_le (by omega)]
      simp
    · push Not at hlen
      rw [if_neg (not_le.2 hlen), ih (by simpa using hlen)]
      have htake : (logs.set start e).take (start + 1) = logs.take start ++ [e] := by
        rw [List.take_set, List.take_succ_eq_append_getElem hlen,
          List.set_append_right _ _ (by simp)]
        simp [min_eq_left hlen.le]
      have hdrop : (logs.set start e).drop (start + 1 + es.length) =
          logs.drop (start + (e :: es).length) := by
        rw [List.drop_set_of_lt (by omega), List.length_cons]
        congr 1
        omega
      rw [htake, hdrop]
      simp

/-- `ApplyEntries` puts the entries into the log at `start`, and keeps what follows them unless an
entry conflicts. -/
lemma splice_cases (es : List (LogEntry C)) (hs : start ≤ logs.length) :
    (Agree logs start es ∧ copyEntries (dropConflict logs start es) start es =
      logs.take start ++ es ++ logs.drop (start + es.length)) ∨
    ∃ k, Conflict logs start es k ∧
      copyEntries (dropConflict logs start es) start es = logs.take start ++ es := by
  obtain ⟨hagree, h⟩ | ⟨k, hk, h⟩ := dropConflict_cases logs es start
  · rw [h]
    exact Or.inl ⟨hagree, copyEntries_eq hs⟩
  · refine Or.inr ⟨k, hk, ?_⟩
    obtain ⟨x, e, hx, he, -⟩ := hk
    obtain ⟨hlen, -⟩ := List.getElem?_eq_some_iff.1 hx
    obtain ⟨hk, -⟩ := List.getElem?_eq_some_iff.1 he
    rw [h, copyEntries_eq (by simp; omega), List.take_take, min_eq_left (by omega)]
    simp
    omega

end Splice

/-! ### Compaction -/

lemma length_takeWhile_range' (m k d L : ℕ) :
    ((List.range' k m).takeWhile fun i => decide (i + d ≤ L)).length = min m (L + 1 - (k + d)) := by
  induction m generalizing k with
  | zero => simp
  | succ m ih =>
    rw [List.range'_succ, List.takeWhile_cons]
    by_cases h : k + d ≤ L
    · simp only [h, decide_true, if_true, List.length_cons, ih]
      omega
    · simp only [h, decide_false, Bool.false_eq_true, if_false, List.length_nil]
      omega

lemma includedCount_eq : rf.includedCount =
    min (rf.logs.length - 1) (rf.lastIncludedIndex - rf.discardCount) := by
  unfold includedCount raftIndex
  rw [length_takeWhile_range']
  omega

end Raft

/-! ### Logs and snapshots, in memory and in stable storage -/

/-- The part of a server that replication is about. -/
structure Store (C σ : Type) where
  logs : List (LogEntry C)
  discardCount : ℕ
  lastIncludedIndex : ℕ
  snapshot : Option (Snapshot C σ)
  stableLogs : List (LogEntry C)
  stableSnapshot : Option (Snapshot C σ)

namespace Store

variable (b : Store C σ)

def save : Store C σ := { b with stableLogs := b.logs, stableSnapshot := b.snapshot }

/-- The log as if nothing had been compacted. -/
def logical : List (LogEntry C) := coveredBy b.snapshot ++ b.logs.tail

def append (e : LogEntry C) : Store C σ := { b with logs := b.logs ++ [e] }

/-- The entries of an `ApplyEntries` that passed its check. -/
def splice (args : ApplyEntriesArgs n C) : Store C σ :=
  let start := args.prevLogIndex + 1 - b.discardCount
  let logs := Raft.copyEntries (Raft.dropConflict b.logs start args.entries) start args.entries
  { b with logs := logs }

/-- Drop the entries up to `index`, as far as they are there. -/
def discard (index : ℕ) : Store C σ :=
  { b with
    logs := b.logs.drop (min (b.logs.length - 1) (index - b.discardCount))
    discardCount := index
    lastIncludedIndex := index }

/-- A snapshot of the service at `index`. -/
def compact (index : ℕ) (data : Snapshot C σ) : Store C σ :=
  { b.discard index with snapshot := some { data with covered := b.logical.take index } }

/-- The log has an entry of the snapshot's last term at its last index. -/
def Covers (args : InstallSnapshotArgs n C σ) : Prop :=
  b.discardCount < args.lastIncludedIndex ∧
    (b.logs[args.lastIncludedIndex - b.discardCount]?).map LogEntry.term =
      some args.lastIncludedTerm

instance (args : InstallSnapshotArgs n C σ) : Decidable (b.Covers args) :=
  inferInstanceAs (Decidable (_ ∧ _))

/-- A snapshot of the leader. -/
def install (args : InstallSnapshotArgs n C σ) : Store C σ :=
  if b.Covers args then { b.discard args.lastIncludedIndex with snapshot := args.data }
  else { ({ b with logs := [⟨default, args.lastIncludedTerm⟩] } : Store C σ).discard
          args.lastIncludedIndex with snapshot := args.data }

def restart : Store C σ :=
  { b with
    logs := b.stableLogs
    discardCount := (b.stableSnapshot.map Snapshot.index).getD 0
    lastIncludedIndex := (b.stableSnapshot.map Snapshot.index).getD 0
    snapshot := b.stableSnapshot }

@[simp] lemma save_logical : b.save.logical = b.logical := rfl

/-- What holds of the log of every server: slot `0` is there, `DiscardCount` and
`lastIncludedIndex` are the index of the snapshot, and stable storage is up to date. -/
structure Shape (b : Store C σ) : Prop where
  logs_ne : b.logs ≠ []
  discard : b.discardCount = b.lastIncludedIndex
  index : b.lastIncludedIndex = (b.snapshot.map Snapshot.index).getD 0
  stableLogs : b.stableLogs = b.logs
  stableSnapshot : b.stableSnapshot = b.snapshot

section Shape

variable {b}

lemma Shape.save (h : b.Shape) : b.save.Shape := ⟨h.logs_ne, h.discard, h.index, rfl, rfl⟩

/-- There is nothing left to save. -/
lemma Shape.save_eq (h : b.Shape) : b.save = b := by
  cases b
  simp only [Store.save, Store.mk.injEq, true_and]
  exact ⟨h.stableLogs.symm, h.stableSnapshot.symm⟩

lemma Shape.append (h : b.Shape) (e : LogEntry C) : (b.append e).save.Shape :=
  ⟨by simp [Store.save, Store.append], h.discard, h.index, rfl, rfl⟩

lemma Shape.splice (h : b.Shape) {args : ApplyEntriesArgs n C} {e : LogEntry C}
    (hle : b.discardCount ≤ args.prevLogIndex)
    (he : b.logs[args.prevLogIndex - b.discardCount]? = some e) : (b.splice args).save.Shape := by
  obtain ⟨hlen, -⟩ := List.getElem?_eq_some_iff.1 he
  have hne : b.logs.take (args.prevLogIndex + 1 - b.discardCount) ≠ [] := by
    rw [ne_eq, List.take_eq_nil_iff]
    rintro (h₀ | h₀)
    · omega
    · exact h.logs_ne h₀
  refine ⟨?_, h.discard, h.index, rfl, rfl⟩
  change Raft.copyEntries _ _ _ ≠ []
  have hstart : args.prevLogIndex + 1 - b.discardCount ≤ b.logs.length := by omega
  obtain ⟨-, hs⟩ | ⟨k, -, hs⟩ := Raft.splice_cases args.entries hstart
  · rw [hs]
    simp [hne]
  · rw [hs]
    simp [hne]

lemma discard_logs_ne (h : b.logs ≠ []) (index : ℕ) : (b.discard index).logs ≠ [] := by
  have := List.length_pos_iff.2 h
  change b.logs.drop _ ≠ []
  rw [ne_eq, List.drop_eq_nil_iff]
  omega

lemma Shape.compact (h : b.Shape) {index : ℕ} {data : Snapshot C σ} (hd : data.index = index) :
    (b.compact index data).save.Shape :=
  ⟨discard_logs_ne h.logs_ne index, rfl, hd.symm, rfl, rfl⟩

lemma Shape.install (h : b.Shape) {args : InstallSnapshotArgs n C σ}
    (hd : args.lastIncludedIndex = (args.data.map Snapshot.index).getD 0) :
    (b.install args).save.Shape := by
  unfold Store.install
  split
  · exact ⟨discard_logs_ne h.logs_ne _, rfl, hd, rfl, rfl⟩
  · exact ⟨discard_logs_ne (List.cons_ne_nil _ _) _, rfl, hd, rfl, rfl⟩

/-- A restart finds the log and the snapshot as they were. -/
lemma Shape.restart (h : b.Shape) : b.restart = b := by
  unfold Store.restart
  rw [h.stableLogs, h.stableSnapshot, ← h.index]
  cases b
  simp only [Store.mk.injEq, true_and]
  exact ⟨h.discard.symm, h.stableLogs.symm, h.stableSnapshot.symm⟩

/-- `ApplyEntries` leaves the slots up to the previous index alone. -/
lemma splice_getElem?_of_lt {args : ApplyEntriesArgs n C} {p : LogEntry C} {m : ℕ}
    (hp : b.logs[args.prevLogIndex - b.discardCount]? = some p)
    (hm : m < args.prevLogIndex + 1 - b.discardCount) : (b.splice args).logs[m]? = b.logs[m]? := by
  obtain ⟨hlen, -⟩ := List.getElem?_eq_some_iff.1 hp
  have hstart : args.prevLogIndex + 1 - b.discardCount ≤ b.logs.length := by omega
  have htake : (b.logs.take (args.prevLogIndex + 1 - b.discardCount))[m]? = b.logs[m]? :=
    List.getElem?_take_of_lt hm
  have hpos : m < (b.logs.take (args.prevLogIndex + 1 - b.discardCount)).length := by
    rw [List.length_take]
    omega
  change (Raft.copyEntries _ _ _)[m]? = _
  obtain ⟨-, hs⟩ | ⟨k, -, hs⟩ := Raft.splice_cases args.entries hstart
  · rw [hs, List.append_assoc, List.getElem?_append_left hpos, htake]
  · rw [hs, List.getElem?_append_left hpos, htake]

/-- After them it has the entries of the message. -/
lemma splice_getElem?_entries {args : ApplyEntriesArgs n C} {p : LogEntry C} {m : ℕ}
    (hp : b.logs[args.prevLogIndex - b.discardCount]? = some p) (hm : m < args.entries.length) :
    (b.splice args).logs[args.prevLogIndex + 1 - b.discardCount + m]? = args.entries[m]? := by
  obtain ⟨hlen, -⟩ := List.getElem?_eq_some_iff.1 hp
  have hstart : args.prevLogIndex + 1 - b.discardCount ≤ b.logs.length := by omega
  have htake : (b.logs.take (args.prevLogIndex + 1 - b.discardCount)).length =
      args.prevLogIndex + 1 - b.discardCount := by
    rw [List.length_take]
    omega
  have hget : (b.logs.take (args.prevLogIndex + 1 - b.discardCount) ++ args.entries)[
      args.prevLogIndex + 1 - b.discardCount + m]? = args.entries[m]? := by
    rw [List.getElem?_append_right (by omega), htake]
    congr 1
    omega
  change (Raft.copyEntries _ _ _)[_]? = _
  obtain ⟨-, hs⟩ | ⟨k, -, hs⟩ := Raft.splice_cases args.entries hstart
  · rw [hs, List.getElem?_append_left (by rw [List.length_append, htake]; omega), hget]
  · rw [hs, hget]

end Shape

/-! ### The logical log -/

/-- The snapshot stands for the entries up to `DiscardCount`, and slot `0` has the term of the last
of them. -/
structure Covered (b : Store C σ) : Prop where
  length : (coveredBy b.snapshot).length = b.discardCount
  slot : ∀ e, b.logs[0]? = some e → e.term = lastTerm LogEntry.term (coveredBy b.snapshot)

lemma Covered.save (h : b.Covered) : b.save.Covered := ⟨h.length, h.slot⟩

section Logical

variable {b} (hc : b.Covered)

include hc

lemma logical_length : b.logical.length = b.discardCount + (b.logs.length - 1) := by
  unfold logical
  rw [List.length_append, hc.length, List.length_tail]

lemma logical_getElem? {k : ℕ} (hk : b.discardCount ≤ k) :
    b.logical[k]? = b.logs[k + 1 - b.discardCount]? := by
  unfold logical
  rw [List.getElem?_append_right (hc.length ▸ hk), hc.length, List.getElem?_tail]
  congr 1
  omega

lemma logical_drop {k : ℕ} (hk : b.discardCount ≤ k) :
    b.logical.drop k = b.logs.drop (k + 1 - b.discardCount) := by
  apply List.ext_getElem?
  intro j
  rw [List.getElem?_drop, List.getElem?_drop, logical_getElem? hc (by omega)]
  congr 1
  omega

lemma logical_take_discard : b.logical.take b.discardCount = coveredBy b.snapshot := by
  unfold logical
  rw [← hc.length, List.take_left]

/-- The term of a slot is the last term of the logical log up to there. -/
lemma lastTerm_logical {m : ℕ} {e : LogEntry C} (h : b.logs[m]? = some e) :
    lastTerm LogEntry.term (b.logical.take (b.discardCount + m)) = e.term := by
  cases m with
  | zero =>
    rw [Nat.add_zero, logical_take_discard hc]
    exact (hc.slot e h).symm
  | succ m =>
    refine lastTerm_take _ (by omega) ?_
    rw [logical_getElem? hc (by omega), ← h]
    congr 1
    omega

lemma covered_prefix : coveredBy b.snapshot <+: b.logical := List.prefix_append _ _

omit hc in
lemma logical_append (hne : b.logs ≠ []) (e : LogEntry C) :
    (b.append e).logical = b.logical ++ [e] := by
  change coveredBy b.snapshot ++ (b.logs ++ [e]).tail = coveredBy b.snapshot ++ b.logs.tail ++ [e]
  rw [List.tail_append_of_ne_nil hne, List.append_assoc]

lemma covered_append (hne : b.logs ≠ []) (e : LogEntry C) : (b.append e).Covered := by
  refine ⟨hc.length, fun x hx => hc.slot x ?_⟩
  change (b.logs ++ [e])[0]? = some x at hx
  rwa [List.getElem?_append_left (List.length_pos_iff.2 hne)] at hx

/-- Compaction does not change the logical log. -/
lemma logical_compact {index : ℕ} (data : Snapshot C σ) (hlo : b.discardCount ≤ index)
    (hhi : index ≤ b.logical.length) : (b.compact index data).logical = b.logical := by
  rw [logical_length hc] at hhi
  change b.logical.take index ++ (b.logs.drop _).tail = b.logical
  rw [min_eq_right (by omega), List.tail_drop, show index - b.discardCount + 1 =
    index + 1 - b.discardCount by omega, ← logical_drop hc hlo, List.take_append_drop]

lemma covered_compact {index : ℕ} (data : Snapshot C σ) (hlo : b.discardCount ≤ index)
    (hhi : index ≤ b.logical.length) : (b.compact index data).Covered := by
  refine ⟨by change (b.logical.take index).length = index; simpa using hhi, fun e he => ?_⟩
  rw [logical_length hc] at hhi
  change (b.logs.drop _)[0]? = some e at he
  rw [min_eq_right (by omega), List.getElem?_drop, Nat.add_zero] at he
  have := lastTerm_logical hc he
  rw [show b.discardCount + (index - b.discardCount) = index by omega] at this
  exact this.symm

/-- What `ApplyEntries` does to the logical log. -/
lemma logical_splice {args : ApplyEntriesArgs n C} {p : LogEntry C}
    (hle : b.discardCount ≤ args.prevLogIndex)
    (hp : b.logs[args.prevLogIndex - b.discardCount]? = some p) :
    ((∀ k x e, b.logical[args.prevLogIndex + k]? = some x → args.entries[k]? = some e →
        x.term = e.term) ∧
      (b.splice args).logical = b.logical.take args.prevLogIndex ++ args.entries ++
        b.logical.drop (args.prevLogIndex + args.entries.length)) ∨
    ((∃ (k : ℕ) (x e : LogEntry C), b.logical[args.prevLogIndex + k]? = some x ∧
        args.entries[k]? = some e ∧ x.term ≠ e.term) ∧
      (b.splice args).logical = b.logical.take args.prevLogIndex ++ args.entries) := by
  obtain ⟨hlen, -⟩ := List.getElem?_eq_some_iff.1 hp
  have hstart : args.prevLogIndex + 1 - b.discardCount ≤ b.logs.length := by omega
  set start := args.prevLogIndex + 1 - b.discardCount with hst
  have hget : ∀ k, b.logical[args.prevLogIndex + k]? = b.logs[start + k]? := by
    intro k
    rw [logical_getElem? hc (by omega)]
    congr 1
    omega
  have hfront : coveredBy b.snapshot ++ (b.logs.take start).tail =
      b.logical.take args.prevLogIndex := by
    unfold logical
    rw [List.take_append, hc.length, List.take_of_length_le (hc.length.trans_le hle),
      ← List.drop_one, List.drop_take, List.drop_one]
    congr 2
    omega
  have hne : b.logs.take start ≠ [] := by
    rw [ne_eq, List.take_eq_nil_iff]
    rintro (h₀ | h₀)
    · omega
    · rw [h₀] at hlen
      simp at hlen
  obtain ⟨hagree, hs⟩ | ⟨k, ⟨x, e, hx, he, hxe⟩, hs⟩ := Raft.splice_cases args.entries hstart
  · left
    refine ⟨fun k x e hx he => hagree k x e (hget k ▸ hx) he, ?_⟩
    change coveredBy b.snapshot ++ (Raft.copyEntries _ _ _).tail = _
    rw [hs, List.append_assoc, List.tail_append_of_ne_nil hne, ← List.append_assoc, hfront,
      List.append_assoc, logical_drop hc (by omega)]
    congr 3
    omega
  · right
    refine ⟨⟨k, x, e, (hget k).trans hx, he, hxe⟩, ?_⟩
    change coveredBy b.snapshot ++ (Raft.copyEntries _ _ _).tail = _
    rw [hs, List.tail_append_of_ne_nil hne, ← List.append_assoc, hfront]

lemma covered_splice {args : ApplyEntriesArgs n C} {p : LogEntry C}
    (hle : b.discardCount ≤ args.prevLogIndex)
    (hp : b.logs[args.prevLogIndex - b.discardCount]? = some p) : (b.splice args).Covered := by
  refine ⟨hc.length, fun e he => hc.slot e ?_⟩
  rwa [splice_getElem?_of_lt hp (by omega)] at he

/-- What `InstallSnapshot` does to the logical log. -/
lemma logical_install (args : InstallSnapshotArgs n C σ) :
    (b.Covers args ∧ (b.install args).logical =
      coveredBy args.data ++ b.logical.drop args.lastIncludedIndex) ∨
    (¬ b.Covers args ∧ (b.install args).logical = coveredBy args.data) := by
  by_cases h : b.Covers args
  · refine Or.inl ⟨h, ?_⟩
    obtain ⟨e, he, -⟩ := Option.map_eq_some_iff.1 h.2
    obtain ⟨hlen, -⟩ := List.getElem?_eq_some_iff.1 he
    have hlt := h.1
    unfold install
    rw [if_pos h]
    change coveredBy args.data ++ (b.logs.drop _).tail = _
    rw [min_eq_right (by omega), List.tail_drop, logical_drop hc (by omega)]
    congr 2
    omega
  · refine Or.inr ⟨h, ?_⟩
    unfold install
    rw [if_neg h]
    change coveredBy args.data ++ (List.drop _ [_]).tail = _
    simp

omit hc in
lemma covered_install {args : InstallSnapshotArgs n C σ}
    (hlen : (coveredBy args.data).length = args.lastIncludedIndex)
    (hterm : lastTerm LogEntry.term (coveredBy args.data) = args.lastIncludedTerm) :
    (b.install args).Covered := by
  unfold install
  by_cases h : b.Covers args
  · rw [if_pos h]
    obtain ⟨x, hx, hxt⟩ := Option.map_eq_some_iff.1 h.2
    obtain ⟨hl, -⟩ := List.getElem?_eq_some_iff.1 hx
    refine ⟨hlen, fun e he => ?_⟩
    change (b.logs.drop _)[0]? = some e at he
    have hlt := h.1
    rw [min_eq_right (by omega), List.getElem?_drop, Nat.add_zero, hx] at he
    cases he
    exact hxt.trans hterm.symm
  · rw [if_neg h]
    refine ⟨hlen, fun e he => ?_⟩
    change (List.drop _ [_])[0]? = some e at he
    simp at he
    rw [← he]
    exact hterm.symm

end Logical

end Store

namespace Raft

variable {rf rf' : Raft n C σ}

def store (rf : Raft n C σ) : Store C σ :=
  ⟨rf.logs, rf.discardCount, rf.lastIncludedIndex, rf.snapshot, rf.stableLogs,
    rf.persister.snapshot⟩

@[simp] lemma store_logical : rf.store.logical = rf.logical := rfl

@[simp] lemma store_persist : rf.persist.store = rf.store.save := rfl

lemma store_followLeader {t : ℕ} (h : rf.currentTerm ≤ t) : (rf.followLeader t).store = rf.store := by
  rw [followLeader_eq rf h]
  rfl

lemma store_doSnapshot : rf.doSnapshot.store = (rf.store.discard rf.lastIncludedIndex).save := by
  have : rf.doSnapshot.logs = rf.logs.drop
      (min (rf.logs.length - 1) (rf.lastIncludedIndex - rf.discardCount)) :=
    congrArg rf.logs.drop includedCount_eq
  unfold Store.save Store.discard store
  congr 1

lemma store_requestVote {args : RequestVoteArgs n} {reply : RequestVoteReply}
    (h : rf.requestVote args = some (rf', reply)) : rf'.store = rf.store.save := by
  obtain ⟨rfl, -⟩ | ⟨hle, hv, last, -, ⟨rfl, -⟩ | ⟨rfl, -, -⟩⟩ := requestVote_cases h
  · rfl
  · unfold observe
    split <;> rfl
  · rfl

lemma store_requestVoteReply (args : RequestVoteArgs n) (reply : RequestVoteReply) :
    (rf.requestVoteReply args reply).store = rf.store ∨
      (rf.requestVoteReply args reply).store = rf.store.save := by
  obtain h | ⟨-, h⟩ | ⟨-, -, h | ⟨-, -, h⟩⟩ := requestVoteReply_cases rf args reply
  · exact Or.inl (by rw [h])
  · exact Or.inr (by rw [h]; rfl)
  · exact Or.inl (by rw [h]; rfl)
  · exact Or.inl (by rw [h]; rfl)

lemma store_electionTimeout {calls : List (Fin n × Rpc n C σ)}
    (h : rf.electionTimeout = some (rf', calls)) :
    rf'.store = rf.store ∨ rf'.store = rf.store.save := by
  obtain ⟨-, rfl, -⟩ | ⟨-, last, -, rfl, -⟩ := electionTimeout_cases h
  · exact Or.inl rfl
  · exact Or.inr rfl

lemma store_acceptEntries (args : ApplyEntriesArgs n C) (h : rf.discardCount ≤ args.prevLogIndex) :
    (rf.acceptEntries args).store = rf.store.splice args := by
  have hstart : (rf.realIndex (args.prevLogIndex + 1)).toNat =
      args.prevLogIndex + 1 - rf.discardCount := by
    unfold realIndex
    omega
  dsimp only [acceptEntries]
  rw [hstart]
  unfold Store.splice
  by_cases hes : args.entries = []
  · simp only [hes, ne_eq, not_true_eq_false, if_false, dropConflict, copyEntries]
    split_ifs <;> rfl
  · simp only [ne_eq, hes, not_false_eq_true, if_true]
    split_ifs <;> rfl

lemma store_applyEntries {args : ApplyEntriesArgs n C} {reply : ApplyEntriesReply}
    (h : rf.applyEntries args = some (rf', reply)) :
    rf'.store = rf.store.save ∨
    (rf.currentTerm ≤ args.term ∧ rf.discardCount ≤ args.prevLogIndex ∧
      (∃ e, rf.logs[args.prevLogIndex - rf.discardCount]? = some e ∧ e.term = args.prevLogTerm) ∧
      rf'.ballot = (rf.ballot.follow args.term).save ∧
      rf'.store = (rf.store.splice args).save) := by
  obtain ⟨-, rfl, -⟩ | ⟨hle, -, ⟨rfl, -⟩ | ⟨rfl, -⟩ | ⟨rfl, -, hprev, he⟩⟩ := applyEntries_cases h
  · exact Or.inl rfl
  · rw [store_persist, store_followLeader hle]
    exact Or.inl rfl
  · rw [store_persist, store_followLeader hle]
    exact Or.inl rfl
  · have hdisc : (rf.followLeader args.term).discardCount = rf.discardCount :=
      congrArg Store.discardCount (store_followLeader hle)
    refine Or.inr ⟨hle, hprev, he, ?_, ?_⟩
    · rw [ballot_persist, ballot_acceptEntries, ballot_followLeader hle]
    · rw [store_persist, store_acceptEntries args (hdisc ▸ hprev), store_followLeader hle]

lemma store_takeSnapshot (args : InstallSnapshotArgs n C σ) :
    (rf.takeSnapshot args).store = (rf.store.install args).save := by
  have hpending : ∀ rf : Raft n C σ, ({ rf with applySnappending := true } : Raft n C σ).store =
      rf.store := fun _ => rfl
  rw [takeSnapshot_eq, hpending, store_doSnapshot]
  unfold Store.install
  by_cases h : rf.store.Covers args
  · rw [if_pos h]
    have h' : rf.discardCount < args.lastIncludedIndex ∧
        (rf.logs[args.lastIncludedIndex - rf.discardCount]?).map LogEntry.term =
          some args.lastIncludedTerm := h
    rw [if_pos h']
    rfl
  · rw [if_neg h]
    have h' : ¬ (rf.discardCount < args.lastIncludedIndex ∧
        (rf.logs[args.lastIncludedIndex - rf.discardCount]?).map LogEntry.term =
          some args.lastIncludedTerm) := h
    rw [if_neg h']
    rfl

lemma store_installSnapshot (rf : Raft n C σ) (args : InstallSnapshotArgs n C σ) :
    (rf.installSnapshot args).1.store = rf.store ∨
    (rf.currentTerm ≤ args.term ∧ rf.lastIncludedIndex < args.lastIncludedIndex ∧
      (rf.installSnapshot args).1.ballot = (rf.ballot.follow args.term).save ∧
      (rf.installSnapshot args).1.store = (rf.store.install args).save) := by
  obtain ⟨-, h⟩ | ⟨hle, -, h⟩ | ⟨hle, hi, h⟩ := installSnapshot_cases rf args
  · exact Or.inl (by rw [h])
  · exact Or.inl (by rw [h]; exact store_followLeader hle)
  · refine Or.inr ⟨hle, hi, ?_, ?_⟩
    · rw [h, ballot_takeSnapshot, ballot_followLeader hle]
    · rw [h, store_takeSnapshot, store_followLeader hle]

lemma store_callSnapshot (rf : Raft n C σ) (index : ℕ) (data : Snapshot C σ) :
    (index ≤ rf.lastIncludedIndex ∧ rf.callSnapshot index data = rf) ∨
    (rf.lastIncludedIndex < index ∧
      (rf.callSnapshot index data).store = (rf.store.compact index data).save) := by
  by_cases h : index ≤ rf.lastIncludedIndex
  · exact Or.inl ⟨h, if_pos h⟩
  · refine Or.inr ⟨not_le.1 h, ?_⟩
    dsimp only [callSnapshot]
    rw [if_neg h, store_doSnapshot]
    split_ifs <;> rfl

lemma store_updateCommittedIndex (h : rf.updateCommittedIndex = some rf') :
    rf'.store = rf.store := by
  obtain ⟨index, rfl, -⟩ := updateCommittedIndex_cases h
  rfl

lemma store_applyLog {msgs : List (ApplyMsg C σ)} (h : rf.applyLog = some (rf', msgs)) :
    rf'.store = rf.store := by
  obtain ⟨-, -, lastApplied, -, rfl, -⟩ := applyLog_cases h
  rfl

lemma store_sendApplyEntriesTo {server : Fin n} {args : ApplyEntriesArgs n C}
    {reply : ApplyEntriesReply} (h : rf.sendApplyEntriesTo server args reply = some rf') :
    rf'.store = rf.store ∨ rf'.store = rf.store.save := by
  obtain rfl | ⟨-, rfl⟩ | ⟨index, rfl⟩ | ⟨-, -, -, -, h⟩ := sendApplyEntriesTo_cases h
  · exact Or.inl rfl
  · exact Or.inr rfl
  · exact Or.inl rfl
  · exact Or.inl ((store_updateCommittedIndex h).trans rfl)

lemma store_sendInstallSnapshotTo (server : Fin n) (args : InstallSnapshotArgs n C σ)
    (reply : InstallSnapshotReply) :
    (rf.sendInstallSnapshotTo server args reply).store = rf.store ∨
      (rf.sendInstallSnapshotTo server args reply).store = rf.store.save := by
  obtain h | ⟨-, h⟩ | ⟨-, -, h⟩ := sendInstallSnapshotTo_cases rf server args reply
  · exact Or.inl (by rw [h])
  · exact Or.inr (by rw [h]; rfl)
  · exact Or.inl (by rw [h]; rfl)

lemma store_make (me : Fin n) : (make me rf.persister : Raft n C σ).store = rf.store.restart := by
  unfold make readPersist readSnapShot store Store.restart stableLogs
  cases hr : rf.persister.raftstate <;> cases hs : rf.persister.snapshot <;> simp [hr, hs]

/-! ### A log and its compacted form -/

section Keeps

variable {log : List (LogEntry C)}

/-- The server keeps `log`, whose entry of index `j` is `log[j - 1]`: the entries beyond
`lastIncludedIndex` are in `Logs`, and of the last one before them slot `0` has the term. -/
structure Keeps (rf : Raft n C σ) (log : List (LogEntry C)) : Prop where
  discard : rf.discardCount = rf.lastIncludedIndex
  slot : 0 < rf.lastIncludedIndex → (log[rf.lastIncludedIndex - 1]?).map LogEntry.term =
    (rf.logs[0]?).map LogEntry.term
  tail : rf.logs.tail = log.drop rf.lastIncludedIndex

lemma Keeps.getElem? (h : rf.Keeps log) (k : ℕ) : rf.logs[k + 1]? = log[rf.raftIndex k]? := by
  rw [← List.getElem?_tail, h.tail, List.getElem?_drop]
  congr 1
  unfold raftIndex
  rw [h.discard, add_comm]

/-- What is after slot `k` is what is in the log after that index. -/
lemma Keeps.drop (h : rf.Keeps log) (k : ℕ) : rf.logs.drop (k + 1) = log.drop (rf.raftIndex k) := by
  apply List.ext_getElem?
  intro j
  rw [List.getElem?_drop, List.getElem?_drop, show k + 1 + j = k + j + 1 by omega, h.getElem?]
  congr 1
  unfold raftIndex
  omega

/-- The term in a slot is the term of the entry with that index. -/
lemma Keeps.term (h : rf.Keeps log) {k : ℕ} {e : LogEntry C} (he : rf.logs[k]? = some e)
    (hpos : 0 < rf.raftIndex k) : (log[rf.raftIndex k - 1]?).map LogEntry.term = some e.term := by
  cases k with
  | zero =>
    have hk : rf.raftIndex 0 = rf.lastIncludedIndex := (Nat.zero_add _).trans h.discard
    rw [hk] at hpos ⊢
    rw [h.slot hpos, he]
    rfl
  | succ k =>
    have hk : rf.raftIndex (k + 1) - 1 = rf.raftIndex k := by
      unfold raftIndex
      omega
    rw [hk, ← h.getElem?, he]
    rfl

lemma keeps_logical (hshape : rf.store.Shape) (hc : rf.store.Covered) : rf.Keeps rf.logical := by
  have hdisc : rf.discardCount = rf.lastIncludedIndex := hshape.discard
  have hlen : (coveredBy rf.snapshot).length = rf.lastIncludedIndex := hc.length.trans hdisc
  refine ⟨hdisc, fun hpos => ?_, ?_⟩
  · obtain ⟨e, he⟩ : ∃ e, rf.logs[0]? = some e :=
      ⟨_, List.getElem?_eq_getElem (List.length_pos_iff.2 hshape.logs_ne)⟩
    obtain ⟨x, hx⟩ : ∃ x, rf.logical[rf.lastIncludedIndex - 1]? = some x :=
      ⟨_, List.getElem?_eq_getElem (by unfold logical; rw [List.length_append]; omega)⟩
    have htake := Store.logical_take_discard hc
    have hslot := hc.slot e he
    change rf.logical.take rf.discardCount = coveredBy rf.snapshot at htake
    change e.term = lastTerm LogEntry.term (coveredBy rf.snapshot) at hslot
    rw [← htake, hdisc, lastTerm_take _ hpos hx] at hslot
    rw [hx, he]
    exact congrArg some hslot.symm
  · unfold logical
    rw [← hlen, List.drop_left]

end Keeps

end Raft

end RaftLabs
