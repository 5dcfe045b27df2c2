import RaftLabs.Lib.Trace
import RaftLabs.Raft.Cases

/-!
# Searching a log, and the commit rule

`findFirstIndex` is a binary search for the first entry of a term, and everything that uses it
relies on the terms of the log being in order.  On such a log (`Ascending`) it finds `firstOf`, the
place that separates the entries of smaller terms from the rest.

The commit rule searches twice, for the entries of the leader's own term, and then counts replicas
downwards from the last of them.  `updateCommittedIndex_exact`: what it finds is the greatest index
that it may commit.
-/

set_option linter.unusedSectionVars false

namespace RaftLabs

variable {n : ℕ} {C σ : Type} [Inhabited C]

/-- The terms of a log never decrease. -/
def Ascending (logs : List (LogEntry C)) : Prop := logs.Pairwise fun a b => a.term ≤ b.term

/-- The place of the first entry of a term `≥ term`. -/
def firstOf (logs : List (LogEntry C)) (term : ℕ) : ℕ := logs.findIdx fun e => decide (term ≤ e.term)

section FirstOf

variable {logs : List (LogEntry C)} {term i j k : ℕ} {x y e : LogEntry C}

lemma Ascending.le (h : Ascending logs) (hij : i ≤ j) (hx : logs[i]? = some x)
    (hy : logs[j]? = some y) : x.term ≤ y.term := by
  obtain ⟨hi, rfl⟩ := List.getElem?_eq_some_iff.1 hx
  obtain ⟨hj, rfl⟩ := List.getElem?_eq_some_iff.1 hy
  rcases Nat.lt_or_eq_of_le hij with hlt | rfl
  · exact List.pairwise_iff_getElem.1 h i j hi hj hlt
  · exact le_rfl

lemma firstOf_le : firstOf logs term ≤ logs.length := List.findIdx_le_length

lemma term_lt_of_lt_firstOf (hk : k < firstOf logs term) (he : logs[k]? = some e) :
    e.term < term := by
  obtain ⟨hlen, rfl⟩ := List.getElem?_eq_some_iff.1 he
  simpa using List.not_of_lt_findIdx hk

lemma le_term_firstOf (he : logs[firstOf logs term]? = some e) : term ≤ e.term := by
  obtain ⟨hlen, rfl⟩ := List.getElem?_eq_some_iff.1 he
  have : decide (term ≤ logs[firstOf logs term].term) = true := List.findIdx_getElem (w := hlen)
  exact of_decide_eq_true this

/-- In a log in order, the entries before `firstOf` are exactly those of a smaller term. -/
lemma lt_firstOf_iff (h : Ascending logs) (he : logs[k]? = some e) :
    k < firstOf logs term ↔ e.term < term := by
  refine ⟨fun hlt => term_lt_of_lt_firstOf hlt he, fun hlt => ?_⟩
  by_contra hge
  push Not at hge
  obtain ⟨hk, -⟩ := List.getElem?_eq_some_iff.1 he
  have hfirst := List.getElem?_eq_getElem (hge.trans_lt hk)
  have h₁ := le_term_firstOf hfirst
  have h₂ := h.le hge hfirst he
  omega

/-- A place with smaller terms before it, and no smaller term at it, is `firstOf`. -/
lemma firstOf_eq (hbelow : ∀ i e, i < k → logs[i]? = some e → e.term < term)
    (hat : ∀ e, logs[k]? = some e → term ≤ e.term) (hk : k ≤ logs.length) :
    firstOf logs term = k := by
  apply le_antisymm
  · by_contra hlt
    push Not at hlt
    have he := List.getElem?_eq_getElem (hlt.trans_le firstOf_le)
    have h₁ := term_lt_of_lt_firstOf hlt he
    have h₂ := hat _ he
    omega
  · by_contra hlt
    push Not at hlt
    have he := List.getElem?_eq_getElem (hlt.trans_le hk)
    have h₁ := le_term_firstOf he
    have h₂ := hbelow _ _ hlt he
    omega

end FirstOf

namespace Raft

variable {rf rf' : Raft n C σ}

lemma entry_natCast {k : ℕ} {e : LogEntry C} (he : rf.logs[k]? = some e) : rf.entry k = some e :=
  entry_eq_some.2 ⟨Int.natCast_nonneg k, he⟩

/-! ### The binary search -/

section Search

variable {logs : List (LogEntry C)} {term fuel low high : ℕ}

/-- The interval of the search: what lies below has a smaller term, and its upper end, unless it is
the last entry, has not. -/
structure Searching (logs : List (LogEntry C)) (term low high : ℕ) : Prop where
  le : low ≤ high
  lt : high < logs.length
  below : ∀ i e, i < low → logs[i]? = some e → e.term < term
  upper : high = logs.length - 1 ∨ ∀ e, logs[high]? = some e → term ≤ e.term

lemma Searching.findFirstLoop (h : Ascending logs) (hs : Searching logs term low high)
    (hfuel : high ≤ low + fuel) :
    Searching logs term (findFirstLoop logs term fuel low high)
      (findFirstLoop logs term fuel low high) := by
  fun_induction Raft.findFirstLoop logs term fuel low high with
  | case1 low high =>
    obtain rfl : low = high := le_antisymm hs.le hfuel
    exact hs
  | case2 fuel low high hlt mid hmid ih =>
    have hmlt : mid < logs.length := by
      have := hs.lt
      omega
    refine ih ⟨by omega, hmlt, hs.below, Or.inr fun e he => ?_⟩ (by omega)
    rw [List.getD_eq_getElem?_getD, he] at hmid
    exact hmid
  | case3 fuel low high hlt mid hmid ih =>
    have hmlt : mid < logs.length := by
      have := hs.lt
      omega
    refine ih ⟨by omega, hs.lt, fun i e hi he => ?_, hs.upper⟩ (by omega)
    have hm := List.getElem?_eq_getElem hmlt
    rw [List.getD_eq_getElem?_getD, hm] at hmid
    exact (h.le (by omega) he hm).trans_lt (not_le.1 hmid)
  | case4 fuel low high hlt =>
    obtain rfl : low = high := le_antisymm hs.le (not_lt.1 hlt)
    exact hs

/-- **The search is right** on a log whose terms are in order. -/
lemma findFirstIndex_eq (hne : rf.logs ≠ []) (h : Ascending rf.logs) (term : ℕ) :
    rf.findFirstIndex term = some (firstOf rf.logs term) := by
  have hpos := List.length_pos_iff.2 hne
  have hs : Searching rf.logs term 0 (rf.logs.length - 1) :=
    ⟨Nat.zero_le _, by omega, fun i e hi => absurd hi (Nat.not_lt_zero i), Or.inl rfl⟩
  unfold findFirstIndex
  set k := Raft.findFirstLoop rf.logs term rf.logs.length 0 (rf.logs.length - 1)
  have hend : Searching rf.logs term k k := hs.findFirstLoop h (by omega)
  obtain ⟨e, hk⟩ : ∃ e, rf.logs[k]? = some e := ⟨_, List.getElem?_eq_getElem hend.lt⟩
  dsimp only
  rw [entry_natCast hk, Option.map_some]
  congr 1
  split_ifs with hlt
  · -- even the last entry is of a smaller term
    have hlast : k = rf.logs.length - 1 := by
      rcases hend.upper with hlast | hup
      · exact hlast
      · have := hup _ hk
        omega
    refine (firstOf_eq (fun i e hi he => ?_) (fun e he => ?_) le_rfl).symm
    · exact (h.le (by omega) he hk).trans_lt hlt
    · rw [List.getElem?_eq_none le_rfl] at he
      cases he
  · refine (firstOf_eq hend.below (fun e he => ?_) hend.lt.le).symm
    rw [hk] at he
    cases he
    exact not_lt.1 hlt

end Search

/-! ### Where the search is used in replication -/

/-- The reply to a failed check: the entries are hidden in the snapshot, the log is too short, or it
has an entry of another term there, and then the first entry of that term is reported. -/
lemma rejectEntries_cases (hne : rf.logs ≠ []) (h : Ascending rf.logs)
    (args : ApplyEntriesArgs n C) : ∃ reply, rf.rejectEntries args = some reply ∧
      ((args.prevLogIndex < rf.discardCount ∧ reply.success = true) ∨
       (rf.raftIndex rf.logs.length ≤ args.prevLogIndex ∧
        reply = { term := rf.currentTerm, success := false, xIndex := invalidIndex,
                  xLen := rf.raftIndex rf.logs.length }) ∨
       (rf.discardCount ≤ args.prevLogIndex ∧
        ∃ e, rf.logs[args.prevLogIndex - rf.discardCount]? = some e ∧
          reply = { term := rf.currentTerm, success := false, xTerm := e.term,
                    xIndex := rf.raftIndex (firstOf rf.logs e.term),
                    xLen := rf.raftIndex rf.logs.length })) := by
  unfold rejectEntries
  by_cases hneg : rf.realIndex args.prevLogIndex < 0
  · rw [if_pos hneg]
    unfold realIndex at hneg
    exact ⟨_, rfl, Or.inl ⟨by omega, rfl⟩⟩
  rw [if_neg hneg]
  by_cases hlong : (rf.logs.length : ℤ) ≤ rf.realIndex args.prevLogIndex
  · rw [if_pos hlong]
    unfold realIndex at hlong
    exact ⟨_, rfl, Or.inr (Or.inl ⟨by unfold raftIndex; omega, rfl⟩)⟩
  rw [if_neg hlong]
  unfold realIndex at hneg hlong
  have hk : args.prevLogIndex - rf.discardCount < rf.logs.length := by omega
  have he := List.getElem?_eq_getElem hk
  rw [entry_of_realIndex (by omega) he, Option.bind_some, findFirstIndex_eq hne h, Option.bind_some]
  -- the entry itself shows that its term is there
  set e := rf.logs[args.prevLogIndex - rf.discardCount]
  have hfirst : firstOf rf.logs e.term ≤ args.prevLogIndex - rf.discardCount := by
    rw [← not_lt, lt_firstOf_iff h he]
    exact lt_irrefl _
  have hf := List.getElem?_eq_getElem (hfirst.trans_lt hk)
  have hterm : (rf.entry (firstOf rf.logs e.term)).map LogEntry.term = some e.term := by
    rw [entry_natCast hf, Option.map_some]
    exact congrArg some (le_antisymm (h.le hfirst hf he) (le_term_firstOf hf))
  rw [if_neg (not_or.2 ⟨not_le.2 (hfirst.trans_lt hk), not_not.2 hterm⟩)]
  exact ⟨_, rfl, Or.inr (Or.inr ⟨by omega, e, he, rfl⟩)⟩

/-- Where the leader tries again: at the end of the follower's log; if it does not know the
follower's term, where that term starts on the follower; else at its own last entry of that term. -/
lemma backUp_cases (hne : rf.logs ≠ []) (h : Ascending rf.logs) (reply : ApplyEntriesReply) :
    (reply.xIndex = invalidIndex ∧ rf.backUp reply = some reply.xLen) ∨
    (reply.xIndex ≠ invalidIndex ∧ rf.backUp reply = some reply.xIndex.toNat) ∨
    (reply.xIndex ≠ invalidIndex ∧ ∃ k e, rf.logs[k]? = some e ∧ e.term = reply.xTerm ∧
      rf.backUp reply = some (rf.raftIndex k)) := by
  unfold backUp
  by_cases hinv : reply.xIndex = invalidIndex
  · rw [if_pos hinv]
    exact Or.inl ⟨hinv, rfl⟩
  rw [if_neg hinv, findFirstIndex_eq hne h, Option.bind_some]
  by_cases hnone : firstOf rf.logs reply.xTerm = rf.logs.length ∨
      (rf.entry (firstOf rf.logs reply.xTerm)).map LogEntry.term ≠ some reply.xTerm
  · rw [if_pos hnone]
    exact Or.inr (Or.inl ⟨hinv, rfl⟩)
  rw [if_neg hnone, findFirstIndex_eq hne h, Option.bind_some]
  push Not at hnone
  obtain ⟨e, he, heq⟩ := Option.map_eq_some_iff.1 hnone.2
  obtain ⟨-, he⟩ := entry_eq_some.1 he
  rw [Int.toNat_natCast] at he
  -- the last entry of the term is before the second place
  have hlt : firstOf rf.logs reply.xTerm < firstOf rf.logs (reply.xTerm + 1) :=
    (lt_firstOf_iff h he).2 (by omega)
  set high := firstOf rf.logs (reply.xTerm + 1) with hhigh
  have hlen : high - 1 < rf.logs.length := by
    have : high ≤ rf.logs.length := firstOf_le
    omega
  have hx := List.getElem?_eq_getElem hlen
  have hterm : rf.logs[high - 1].term = reply.xTerm := by
    have h₁ : rf.logs[high - 1].term < reply.xTerm + 1 := term_lt_of_lt_firstOf (by omega) hx
    have h₂ := h.le (by omega) he hx
    omega
  have hentry : (rf.entry ((high : ℤ) - 1)).map LogEntry.term = some reply.xTerm := by
    rw [show (high : ℤ) - 1 = (high - 1 : ℕ) by omega, entry_natCast hx, Option.map_some, hterm]
  rw [if_neg (not_not.2 hentry)]
  exact Or.inr (Or.inr ⟨hinv, high - 1, _, hx, hterm, rfl⟩)

/-! ### The commit rule -/

/-- The loop over the peers counts those that have the index, up to a majority. -/
lemma replicatedLoop_eq {index cnt : ℕ} (js : List (Fin n)) (hcnt : 2 * cnt ≤ n) :
    rf.replicatedLoop index js cnt = true ↔
      n < 2 * (cnt + js.countP fun j => decide (j ≠ rf.me ∧ index ≤ rf.matchIndex j)) := by
  induction js generalizing cnt with
  | nil =>
    simp [replicatedLoop]
    omega
  | cons j js ih =>
    unfold replicatedLoop
    by_cases hme : j = rf.me
    · rw [if_pos hme, ih hcnt, List.countP_cons_of_neg (by simp [hme])]
    · rw [if_neg hme]
      by_cases hmatch : index ≤ rf.matchIndex j
      · rw [if_pos hmatch, List.countP_cons_of_pos (by simp [hme, hmatch])]
        split_ifs with hmaj
        · simp only [true_iff]
          omega
        · rw [ih (by omega)]
          omega
      · rw [if_neg hmatch, ih hcnt, List.countP_cons_of_neg (by simp [hmatch])]

/-- How many servers are known to have `index`: the leader, and the peers whose `matchIndex` says
so. -/
def replicas (rf : Raft n C σ) (index : ℕ) : ℕ :=
  1 + (Finset.univ.filter fun j => j ≠ rf.me ∧ index ≤ rf.matchIndex j).card

lemma replicatedLoop_iff (hn : 2 ≤ n) (index : ℕ) :
    rf.replicatedLoop index (List.finRange n) 1 = true ↔ n < 2 * rf.replicas index := by
  rw [replicatedLoop_eq _ hn]
  have hcount : (List.finRange n).countP
      (fun j => decide (j ≠ rf.me ∧ index ≤ rf.matchIndex j)) =
      (Finset.univ.filter fun j => j ≠ rf.me ∧ index ≤ rf.matchIndex j).card := by
    rw [List.countP_eq_length_filter]
    rfl
  rw [hcount, replicas]

/-- `index` may be committed: the log has an entry of the current term there, beyond what is
committed already, and more than half of the servers have it. -/
def Committable (rf : Raft n C σ) (index : ℕ) : Prop :=
  rf.committedIndex < index ∧ n < 2 * rf.replicas index ∧
    ∃ e, rf.entry (rf.realIndex index) = some e ∧ e.term = rf.currentTerm

/-- The entries of the current term are those from the first search up to the second. -/
lemma committable_iff (h : Ascending rf.logs) (hle : ∀ e ∈ rf.logs, e.term ≤ rf.currentTerm)
    {index : ℕ} : rf.Committable index ↔ ∃ k, index = rf.raftIndex k ∧
      firstOf rf.logs rf.currentTerm ≤ k ∧ k < rf.logs.length ∧
      rf.committedIndex < index ∧ n < 2 * rf.replicas index := by
  constructor
  · rintro ⟨hlt, hrep, e, he, hterm⟩
    obtain ⟨hd, he⟩ := entry_realIndex he
    obtain ⟨hk, -⟩ := List.getElem?_eq_some_iff.1 he
    refine ⟨index - rf.discardCount, by unfold raftIndex; omega, ?_, hk, hlt, hrep⟩
    rw [← not_lt, lt_firstOf_iff h he]
    omega
  · rintro ⟨k, rfl, hlow, hk, hlt, hrep⟩
    have he := List.getElem?_eq_getElem hk
    refine ⟨hlt, hrep, rf.logs[k], entry_of_realIndex ?_ ?_, ?_⟩
    · unfold raftIndex
      omega
    · unfold raftIndex
      rwa [Nat.add_sub_cancel]
    · rw [← not_lt, lt_firstOf_iff h he] at hlow
      exact le_antisymm (hle _ (List.getElem_mem hk)) (not_lt.1 hlow)

/-- The second search of the commit rule finds the end of the log, and the panic is not reached. -/
lemma updateCommittedIndex_eq (hne : rf.logs ≠ []) (h : Ascending rf.logs)
    (hle : ∀ e ∈ rf.logs, e.term ≤ rf.currentTerm) :
    rf.updateCommittedIndex =
      if firstOf rf.logs rf.currentTerm = rf.logs.length then some rf
      else some { rf with
        committedIndex := rf.commitLoop (firstOf rf.logs rf.currentTerm) (rf.logs.length - 1) } := by
  have hhigh : firstOf rf.logs (rf.currentTerm + 1) = rf.logs.length := by
    refine firstOf_eq (fun i e _ he => ?_) (fun e he => ?_) le_rfl
    · exact Nat.lt_succ_of_le (hle e (List.mem_of_getElem? he))
    · rw [List.getElem?_eq_none le_rfl] at he
      cases he
  unfold updateCommittedIndex
  rw [findFirstIndex_eq hne h, Option.bind_some]
  by_cases hnone : firstOf rf.logs rf.currentTerm = rf.logs.length
  · rw [if_pos (Or.inl hnone), if_pos hnone]
  · have hlt : firstOf rf.logs rf.currentTerm < rf.logs.length := lt_of_le_of_ne firstOf_le hnone
    have hcur : ∀ k, firstOf rf.logs rf.currentTerm ≤ k → k < rf.logs.length →
        (rf.entry k).map LogEntry.term = some rf.currentTerm := by
      intro k hk hlen
      have he := List.getElem?_eq_getElem hlen
      rw [entry_natCast he, Option.map_some]
      rw [← not_lt, lt_firstOf_iff h he] at hk
      exact congrArg some (le_antisymm (hle _ (List.getElem_mem hlen)) (not_lt.1 hk))
    have hlast := hcur (rf.logs.length - 1) (by omega) (by omega)
    rw [Nat.cast_sub (by omega), Nat.cast_one] at hlast
    rw [if_neg (not_or.2 ⟨hnone, not_not.2 (hcur _ le_rfl hlt)⟩), if_neg hnone,
      findFirstIndex_eq hne h, Option.bind_some, hhigh,
      if_neg (not_or.2 ⟨not_le.2 hlt, not_not.2 hlast⟩)]

/-- **The commit rule picks exactly the right index.**  In a cluster of two or more servers, on a
log whose terms are in order and do not exceed the current one, `updateCommittedIndex` does not
panic, and moves `committedIndex` to the greatest index that may be committed, if there is one. -/
theorem updateCommittedIndex_exact (hn : 2 ≤ n) (hne : rf.logs ≠ []) (h : Ascending rf.logs)
    (hle : ∀ e ∈ rf.logs, e.term ≤ rf.currentTerm) :
    ∃ index, rf.updateCommittedIndex = some { rf with committedIndex := index } ∧
      (IsGreatest {N | rf.Committable N} index ∨
        (∀ N, ¬ rf.Committable N) ∧ index = rf.committedIndex) := by
  rw [updateCommittedIndex_eq hne h hle]
  split_ifs with hnone
  · -- no entry of the current term
    refine ⟨rf.committedIndex, rfl, Or.inr ⟨fun N hN => ?_, rfl⟩⟩
    obtain ⟨k, -, h₁, h₂, -⟩ := (committable_iff h hle).1 hN
    omega
  · refine ⟨_, rfl, ?_⟩
    obtain ⟨heq, hnot⟩ | ⟨k, hlow, hk, heq, hnew, hrep, hmax⟩ :=
      commitLoop_cases rf (firstOf rf.logs rf.currentTerm) (rf.logs.length - 1)
    · right
      refine ⟨fun N hN => ?_, heq⟩
      obtain ⟨k, rfl, h₁, h₂, h₃, h₄⟩ := (committable_iff h hle).1 hN
      exact absurd ((replicatedLoop_iff hn _).2 h₄) (by simp [hnot k h₁ (by omega) h₃])
    · left
      have hlen := List.length_pos_iff.2 hne
      rw [heq]
      refine ⟨(committable_iff h hle).2 ⟨k, rfl, hlow, by omega, hnew,
        (replicatedLoop_iff hn _).1 hrep⟩, fun N hN => ?_⟩
      obtain ⟨k', rfl, h₁, h₂, h₃, h₄⟩ := (committable_iff h hle).1 hN
      by_contra hgt
      unfold raftIndex at hgt
      exact absurd ((replicatedLoop_iff hn _).2 h₄) (by simp [hmax k' (by omega) (by omega)])

/-- A leader of term `2` that has compacted its log up to index `5`: of the entries after that, one
peer has two and the other one. -/
def compactedLeader : Raft 3 ℕ Unit :=
  { make 0 ⟨none, none⟩ with
    currentTerm := 2
    identity := .leader
    logs := [⟨0, 1⟩, ⟨10, 2⟩, ⟨20, 2⟩, ⟨30, 2⟩]
    discardCount := 5
    lastIncludedIndex := 5
    committedIndex := 5
    matchIndex := fun j => if j = 1 then 7 else 6 }

theorem updateCommittedIndex_exact_compacted :
    compactedLeader.updateCommittedIndex.map Raft.committedIndex = some 7 ∧
    ∃ index, compactedLeader.updateCommittedIndex =
        some { compactedLeader with committedIndex := index } ∧
      (IsGreatest {N | compactedLeader.Committable N} index ∨
        (∀ N, ¬ compactedLeader.Committable N) ∧ index = compactedLeader.committedIndex) := by
  refine ⟨by decide +kernel, updateCommittedIndex_exact (by decide) (by decide) ?_ ?_⟩
  · unfold Ascending
    decide
  · decide

end Raft

end RaftLabs
