import RaftLabs.Raft.ApplyStream
import RaftLabs.Raft.Terms

/-!
# Fast backup

When a follower rejects an `ApplyEntries`, the leader moves `nextIndex` back by a whole term: to the
end of the follower's log if that is too short, to where the follower's conflicting term starts if
the leader does not know that term, and else to the leader's own last entry of that term.  The last
case could jump forward, were it not that all entries of a term have been made by one leader, which
put them on top of its log: below an entry of a term, down to the first entry of that term that was
ever made, there are only entries of that term (`Made.above`).  Slot `0` counts as well, since its
term goes back to an entry at its index or before (`Rooted`).

`fast_backup_progress`: each rejection moves `nextIndex` strictly back and never to `0`, so there
are at most `nextIndex` of them in a row.
-/

namespace RaftLabs

open Lib

variable {n : ℕ} {C σ : Type} [Inhabited C]

namespace Cluster

variable {H : Raft n C (List C) → ApplyEntriesArgs n C → Prop} {s s' : Cluster n C}
  {past tr : List (Cluster n C)} {index prev prev' p q : ℕ} {e e' : LogEntry C}

/-! ### The entries of a leader's own term are on top -/

/-- The log reaches up to `p`, and is of the server's own term from there on. -/
def Topped (p : ℕ) (rf : Raft n C (List C)) : Prop :=
  p < rf.discardCount + rf.logs.length ∧ ∀ k e, rf.logs[k]? = some e → p ≤ rf.discardCount + k →
    e.term = rf.currentTerm

/-- A leader that goes on leading its term keeps the entries of that term on top. -/
def Tops (rf rf' : Raft n C (List C)) : Prop :=
  Reigns rf rf' ∧ (rf.identity = .leader → rf'.identity = .leader →
    rf'.currentTerm = rf.currentTerm → ∀ p, Topped p rf → Topped p rf')

lemma Tops.refl (rf : Raft n C (List C)) : Tops rf rf := ⟨.refl rf, fun _ _ _ _ h => h⟩

lemma Tops.trans {rf rf' rf'' : Raft n C (List C)} (h : Tops rf rf') (h' : Tops rf' rf'') :
    Tops rf rf'' := by
  refine ⟨h.1.trans h'.1, fun hl hl'' ht p hp => ?_⟩
  rcases (h.1 rf.currentTerm).2 ⟨hl, rfl⟩ with ⟨hl', ht', -⟩ | ho
  · exact h'.2 hl' hl'' (ht.trans ht'.symm) p (h.2 hl hl' ht' p hp)
  · -- a term that is over is never led again
    cases hl''.symm.trans (((h'.1 _).1 ho).2 ht)

end Cluster

open Cluster in
lemma Turn.topped {H : Raft n C (List C) → ApplyEntriesArgs n C → Prop} {i : Fin n}
    {node node' : Node n C} {got : Option (Packet n C)} {sent : List (Packet n C)} {p : ℕ}
    (h : Turn H i node node' got sent) (hshape : node.raft.store.Shape)
    (hl : node'.raft.identity = .leader) (ht : node'.raft.currentTerm = node.raft.currentTerm)
    (hp : Topped p node.raft) : Topped p node'.raft := by
  have hof : ∀ {b : Store C (List C)}, node'.raft.store = b →
      p < b.discardCount + b.logs.length →
      (∀ k e, b.logs[k]? = some e → p ≤ b.discardCount + k → e.term = node.raft.currentTerm) →
      Topped p node'.raft := by
    rintro _ rfl hlen hb
    exact ⟨hlen, fun k e he hk => (hb k e he hk).trans ht.symm⟩
  rcases h.store_cases with (h | h) | ⟨c, -, -, h⟩ | ⟨q, args, -, -, -, -, -, -, hf, -⟩ |
    ⟨index, -, hlt, h⟩ | ⟨q, args, -, -, -, -, -, hf, -⟩ | ⟨rfl, -⟩
  · exact hof h hp.1 hp.2
  · exact hof h hp.1 hp.2
  · refine hof h (hp.1.trans_le ?_) fun k e he hk => ?_
    · change _ ≤ node.raft.discardCount + (node.raft.logs ++ [_]).length
      simp
    · change (node.raft.logs ++ [_])[k]? = some e at he
      rcases Nat.lt_or_ge k node.raft.logs.length with hlen | hlen
      · rw [List.getElem?_append_left hlen] at he
        exact hp.2 k e he hk
      · rw [List.getElem?_append_right hlen] at he
        rw [List.mem_singleton.1 (List.mem_of_getElem? he)]
  · cases hl.symm.trans (congrArg Ballot.identity hf)
  · -- a snapshot beyond the log keeps its last entry, which is of the right term
    have hd : node.raft.discardCount = node.raft.lastIncludedIndex := hshape.discard
    obtain ⟨hp₁, hp₂⟩ := hp
    refine hof h ?_ fun k e he hk => ?_
    · change p < index + (node.raft.logs.drop
        (min (node.raft.logs.length - 1) (index - node.raft.discardCount))).length
      rw [List.length_drop]
      omega
    · change (node.raft.logs.drop
        (min (node.raft.logs.length - 1) (index - node.raft.discardCount)))[k]? = some e at he
      change p ≤ index + k at hk
      rw [List.getElem?_drop] at he
      obtain ⟨hlen, -⟩ := List.getElem?_eq_some_iff.1 he
      exact hp₂ _ e he (by omega)
  · cases hl.symm.trans (congrArg Ballot.identity hf)
  · cases hl.symm.trans node.restart_identity

namespace Cluster

variable {H : Raft n C (List C) → ApplyEntriesArgs n C → Prop} {s s' : Cluster n C}
  {past tr : List (Cluster n C)} {index prev prev' p q : ℕ} {e e' : LogEntry C}

lemma step_tops {e : Event n C} (htr : Run H (s :: past)) (hok : s.Heeds H e)
    (hs : s.step e = some s') (i : Fin n) : Tops (s.raft i) (s'.raft i) := by
  refine ⟨step_reigns htr hok hs i, fun hl hl' ht p hp => ?_⟩
  obtain ⟨j, node, got, sent, hturn, hm⟩ := step_turn hok hs
  by_cases hij : i = j
  · subst hij
    rw [hm.raft_self] at hl' ht ⊢
    exact hturn.topped ((Run.shapely htr).1 i) hl' ht hp
  · rw [hm.raft_other hij]
    exact hp

lemma Run.tops (htr : Run H tr) (i : Fin n) {s₁ s₂ : Cluster n C} (h₁ : s₁ ∈ tr) (h₂ : s₂ ∈ tr) :
    Tops (s₁.raft i) (s₂.raft i) ∨ Tops (s₂.raft i) (s₁.raft i) :=
  Trace.total (R := fun s s' => Tops (s.raft i) (s'.raft i)) (fun _ => .refl _)
    (fun _ _ _ => .trans) (fun _ _ _ _ htr hok hs => step_tops htr hok hs i) htr h₁ h₂

/-- From an entry of its own term on, the log of a server is of that term. -/
lemma Run.topped (htr : Run H (s :: past)) {i : Fin n} {k : ℕ} (he : (s.raft i).logs[k]? = some e)
    (ht : e.term = (s.raft i).currentTerm) : Topped ((s.raft i).discardCount + k) (s.raft i) := by
  obtain ⟨hk, -⟩ := List.getElem?_eq_some_iff.1 he
  refine ⟨by omega, fun j x hx hj => ?_⟩
  exact le_antisymm (htr.term_le i x (List.mem_of_getElem? hx))
    (ht ▸ (htr.ascending i).le (by omega) he hx)

/-- **One leader made all entries of a term**, each on top of those it had made before. -/
lemma Made.above (htr : Run H tr) (h : Made tr p e prev) (h' : Made tr q e' prev')
    (hterm : e.term = e'.term) (hpq : p < q) : prev' = e'.term := by
  obtain ⟨s₁, hs₁, a, hl₁, ht₁, hat₁⟩ := h
  obtain ⟨s₂, hs₂, b, hl₂, ht₂, hat₂⟩ := h'
  obtain rfl : a = b := htr.leader_unique hs₁ hs₂ hl₁ hl₂ (ht₁.trans (hterm.trans ht₂.symm))
  obtain ⟨rest₁, hrun₁⟩ := htr.mem hs₁
  obtain ⟨rest₂, hrun₂⟩ := htr.mem hs₂
  have hlt := hat₁.lt
  obtain ⟨k, x, hx, hy, rfl, rfl⟩ := hat₂
  rw [← ht₂]
  rcases htr.tops a hs₁ hs₂ with hr | hr
  · -- the leader had the first entry when it made the second
    have hat := hat₁
    obtain ⟨j, w, -, he, -, rfl⟩ := hat
    have htop := hr.2 hl₁ hl₂ (ht₂.trans (hterm.symm.trans ht₁.symm)) _
      (Run.topped hrun₁ he ht₁.symm)
    exact htop.2 k x hx (by omega)
  · -- the first entry was there already when the leader made the second
    rcases (hr.1 (s₂.raft a).currentTerm).2 ⟨hl₂, rfl⟩ with ⟨-, -, hd, hext⟩ | ho
    · obtain ⟨hk, -⟩ := List.getElem?_eq_some_iff.1 hx
      have hj : p - (s₂.raft a).discardCount < (s₂.raft a).logs.length := by omega
      have hj' : p - (s₂.raft a).discardCount - 1 < (s₂.raft a).logs.length := by omega
      have hat : At (s₂.raft a).logs (s₂.raft a).discardCount p
          (s₂.raft a).logs[p - (s₂.raft a).discardCount]
          (s₂.raft a).logs[p - (s₂.raft a).discardCount - 1].term := by
        refine ⟨p - (s₂.raft a).discardCount - 1, _, List.getElem?_eq_getElem hj', ?_, rfl,
          by omega⟩
        rw [show p - (s₂.raft a).discardCount - 1 + 1 = p - (s₂.raft a).discardCount by omega]
        exact List.getElem?_eq_getElem hj
      obtain ⟨heq, -⟩ := (hext _ _ _ hlt.1 hat).unique hat₁
      have htop := Run.topped hrun₂ (List.getElem?_eq_getElem hj)
        (by rw [heq, hterm, ht₂])
      exact htop.2 k x hx (by omega)
    · cases hl₁.symm.trans (ho.2 (ht₁.trans (hterm.trans ht₂.symm)))

/-- No one is candidate or leader in term `0`. -/
lemma Run.active_pos (htr : Run H (s :: past)) (i : Fin n) :
    (s.raft i).identity ≠ .follower → 0 < (s.raft i).currentTerm := by
  refine Trace.invariant (P := fun s _ => (s.raft i).identity ≠ .follower →
    0 < (s.raft i).currentTerm) ?_ ?_ htr
  · exact fun h => absurd rfl h
  · intro s past e s' _ hi _ hs ha
    rcases (step_ballot hs i).active ha with ⟨ht, ha'⟩ | hb
    · exact (hi ha').trans_eq ht.symm
    · have ht : (s'.raft i).currentTerm = (s.raft i).currentTerm + 1 := congrArg Ballot.term hb
      omega

lemma Made.pos (htr : Run H tr) (h : Made tr index e prev) : 0 < e.term := by
  obtain ⟨s, hs, i, hl, ht, -⟩ := h
  obtain ⟨rest, hrun⟩ := htr.mem hs
  rw [← ht]
  exact Run.active_pos hrun i (by simp [hl])

end Cluster

/-! ### A server that has delivered something has a log -/

/-- The log has an entry, or has had one. -/
def Raft.Begun (rf : Raft n C σ) : Prop := 2 ≤ rf.logs.length ∨ 0 < rf.discardCount

/-- Something has been delivered, or is about to be, or is in a snapshot. -/
def Node.Busy (node : Node n C) : Prop :=
  node.applied ≠ [] ∨ node.batch ≠ [] ∨ node.raft.applySnappending = true ∨
    node.raft.snapshot ≠ none

lemma Store.two_le_splice {b : Store C σ} {args : ApplyEntriesArgs n C} {p : LogEntry C}
    (hle : b.discardCount ≤ args.prevLogIndex)
    (hp : b.logs[args.prevLogIndex - b.discardCount]? = some p) (h : 2 ≤ b.logs.length) :
    2 ≤ (b.splice args).logs.length := by
  obtain ⟨hlen, -⟩ := List.getElem?_eq_some_iff.1 hp
  have hstart : args.prevLogIndex + 1 - b.discardCount ≤ b.logs.length := by omega
  change 2 ≤ (Raft.copyEntries _ _ _).length
  obtain ⟨-, hs⟩ | ⟨k, ⟨-, e, -, he, -⟩, hs⟩ := Raft.splice_cases args.entries hstart
  · rw [hs, List.length_append, List.length_append, List.length_take, List.length_drop]
    omega
  · obtain ⟨hk, -⟩ := List.getElem?_eq_some_iff.1 he
    rw [hs, List.length_append, List.length_take]
    omega

section Begun

variable {H : Raft n C (List C) → ApplyEntriesArgs n C → Prop} {i : Fin n} {node node' : Node n C}
  {got : Option (Packet n C)} {sent : List (Packet n C)}

/-- A log that has had entries never becomes empty again. -/
lemma Turn.begun (h : Turn H i node node' got sent) (hshape : node.raft.store.Shape)
    (hb : node.raft.Begun) : node'.raft.Begun := by
  change 2 ≤ node'.raft.store.logs.length ∨ 0 < node'.raft.store.discardCount
  change 2 ≤ node.raft.store.logs.length ∨ 0 < node.raft.store.discardCount at hb
  rcases h.store_cases with (h | h) | ⟨c, -, -, h⟩ |
    ⟨p, args, -, -, -, -, hle, ⟨x, hx, -⟩, -, h⟩ | ⟨k, -, hk, h⟩ | ⟨p, args, -, -, -, -, hk, -, h⟩ |
    ⟨-, h⟩
  · rwa [h]
  · rwa [h]
  · rw [h]
    exact hb.imp (fun hlen => hlen.trans (by simp [Store.save, Store.append])) id
  · rw [h]
    exact hb.imp (Store.two_le_splice (b := node.raft.store) hle hx) id
  · rw [h]
    exact Or.inr (Nat.zero_lt_of_lt hk)
  · rw [h]
    right
    change 0 < (node.raft.store.install args).discardCount
    unfold Store.install
    split <;> exact Nat.zero_lt_of_lt hk
  · rw [h, hshape.restart]
    exact hb

/-- With an empty log there is nothing that `applyLog` could read. -/
lemma begun_of_applyLog {rf rf' : Raft n C σ} {msgs : List (ApplyMsg C σ)}
    (hd : rf.discardCount = rf.lastIncludedIndex) (hp : rf.applySnappending = false)
    (h : rf.applyLog = some (rf', msgs)) : rf.Begun ∨ msgs = [] := by
  by_contra hnot
  obtain ⟨hbegun, hne⟩ := not_or.1 hnot
  unfold Raft.Begun at hbegun
  obtain ⟨snap, cmds, last, rfl, -, ⟨-, rfl⟩ | ⟨hp', -⟩, ⟨-, rfl, -⟩ | ⟨hlt, hcmds, -⟩⟩ :=
    Raft.applyLog_cases h
  · exact hne rfl
  · -- the first command would be beyond the log
    obtain ⟨count, hcount⟩ : ∃ count, rf.committedIndex -
        max rf.lastApplied rf.lastIncludedIndex = count + 1 :=
      ⟨_, (Nat.sub_add_cancel (by omega)).symm⟩
    rw [hcount] at hcmds
    obtain ⟨e, he, -⟩ := Option.bind_eq_some_iff.1 hcmds
    obtain ⟨-, he⟩ := Raft.entry_realIndex he
    obtain ⟨hlen, -⟩ := List.getElem?_eq_some_iff.1 he
    omega
  · rw [hp] at hp'
    cases hp'
  · rw [hp] at hp'
    cases hp'

omit [Inhabited C] in
/-- A quiet section brings nothing to deliver. -/
lemma Node.busy_of_quiet (h : Raft.Quiet node.raft node'.raft) (happ : node'.applied = node.applied)
    (hbatch : node'.batch = node.batch) (hbusy : node'.Busy) : node.Busy := by
  have h₁ : node'.raft.applySnappending = node.raft.applySnappending :=
    congrArg Raft.Mark.applySnappending h.1
  have h₂ : node'.raft.snapshot = node.raft.snapshot := congrArg Raft.Mark.snapshot h.1
  unfold Node.Busy at hbusy
  rwa [happ, hbatch, h₁, h₂] at hbusy

/-- A server has its snapshot from before the restart. -/
lemma Node.busy_of_restart (hshape : node.raft.store.Shape) (hbusy : node.restart.Busy) :
    node.Busy := by
  have hsnap : node.restart.raft.snapshot = node.raft.persister.snapshot :=
    congrArg Raft.Mark.snapshot (Raft.mark_make _ _)
  have hp : node.restart.raft.applySnappending = false :=
    congrArg Raft.Mark.applySnappending (Raft.mark_make _ _)
  have hsaved : node.raft.persister.snapshot = node.raft.snapshot := hshape.stableSnapshot
  refine Or.inr (Or.inr (Or.inr fun hnone => ?_))
  rw [hnone] at hsaved
  obtain happ | hbatch | hsnap' | hsnap' := hbusy
  · exact happ (by simp [Node.restart, hsaved])
  · exact hbatch rfl
  · rw [hp] at hsnap'
    cases hsnap'
  · exact hsnap' (hsnap.trans hsaved)

/-- What `applyLog` delivers has been read from the log, unless it is a snapshot. -/
lemma Node.busy_of_applyLog {rf : Raft n C (List C)} {batch : List (ApplyMsg C (List C))}
    (hd : node.raft.discardCount = node.raft.lastIncludedIndex)
    (h : node.raft.applyLog = some (rf, batch))
    (hbusy : ({ node with raft := rf, batch := batch } : Node n C).Busy) :
    node.Busy ∨ node.raft.Begun := by
  cases hp : node.raft.applySnappending with
  | true => exact Or.inl (Or.inr (Or.inr (Or.inl hp)))
  | false =>
    obtain hbegun | rfl := begun_of_applyLog hd hp h
    · exact Or.inr hbegun
    · obtain ⟨-, -, last, -, rfl, -⟩ := Raft.applyLog_cases h
      obtain happ | hbatch | hsnap | hsnap := hbusy
      · exact Or.inl (Or.inl happ)
      · exact absurd rfl hbatch
      · cases hsnap
      · exact Or.inl (Or.inr (Or.inr (Or.inr hsnap)))

/-- A snapshot that is installed is not one of index `0`. -/
lemma Raft.begun_of_installSnapshot (rf : Raft n C σ) (args : InstallSnapshotArgs n C σ) :
    Quiet rf (rf.installSnapshot args).1 ∨ (rf.installSnapshot args).1.Begun := by
  obtain ⟨-, h⟩ | ⟨-, -, h⟩ | ⟨-, hlt, h⟩ := installSnapshot_cases rf args
  · rw [h]
    exact Or.inl .refl
  · rw [h]
    exact Or.inl (quiet_followLeader _)
  · rw [h]
    right
    right
    change 0 < ((rf.followLeader args.term).takeSnapshot args).store.discardCount
    rw [store_takeSnapshot]
    change 0 < (Store.install _ args).discardCount
    unfold Store.install
    split <;> exact Nat.zero_lt_of_lt hlt

/-- A server that has something to deliver had it before the turn, or has a log. -/
lemma Turn.busy (h : Turn H i node node' got sent) (hshape : node.raft.store.Shape)
    (hi : node.Busy → node.raft.Begun) (hbusy : node'.Busy) : node'.raft.Begun := by
  have hb := fun hbusy => h.begun hshape (hi hbusy)
  have hhandle : ∀ {x : Input n C (List C)} {terms : List ℕ},
      node.raft.handle x = some (node'.raft, terms) → (∀ args, x ≠ .installSnapshot args) →
      (∀ index data, x ≠ .callSnapshot index data) → x ≠ .applyLog →
      node'.applied = node.applied → node'.batch = node.batch → node'.raft.Begun :=
    fun hx h₁ h₂ h₃ happ hbatch =>
      hb (Node.busy_of_quiet (Raft.handle_quiet hx h₁ h₂ h₃) happ hbatch hbusy)
  cases h with
  | electionTimeout h =>
    exact hhandle (x := .electionTimeout) (by rw [Raft.handle, h]; rfl) (by simp) (by simp)
      (by simp) rfl rfl
  | heartbeatTimeout h => exact hb hbusy
  | @start command rf res calls h =>
    exact hhandle (x := .start command) (by rw [Raft.handle, h]; rfl) (by simp) (by simp)
      (by simp) rfl rfl
  | snapshot h₁ h₂ =>
    refine hb (Or.inl ?_)
    rw [← List.length_pos_iff]
    omega
  | applyLog hempty h =>
    rcases Node.busy_of_applyLog hshape.discard h hbusy with hbusy | hbegun
    · exact hb hbusy
    · exact (Turn.applyLog hempty h : Turn H i node _ none []).begun hshape hbegun
  | applyMsg h => exact hb (Or.inr (Or.inl (by simp [h])))
  | crash => exact hb (Node.busy_of_restart hshape hbusy)
  | lost => exact hb hbusy
  | @requestVote p args rf reply hp hr h =>
    exact hhandle (x := .requestVote args) (by rw [Raft.handle, h]; rfl) (by simp) (by simp)
      (by simp) rfl rfl
  | @applyEntries p args rf reply hp hr hH h =>
    exact hhandle (x := .applyEntries args) (by rw [Raft.handle, h]; rfl) (by simp) (by simp)
      (by simp) rfl rfl
  | @installSnapshot p args rf reply hp hr h =>
    have hcases := Raft.begun_of_installSnapshot node.raft args
    rw [h] at hcases
    rcases hcases with hquiet | hbegun
    · refine hb (Node.busy_of_quiet ?_ ?_ ?_ hbusy)
      · exact hquiet
      · rfl
      · rfl
    · exact hbegun
  | @requestVoteReply p args reply log hp hr he =>
    exact hhandle (x := .requestVoteReply args reply) rfl (by simp) (by simp) (by simp) rfl rfl
  | @applyEntriesReply p args reply log rf hp hr he h =>
    exact hhandle (x := .applyEntriesReply p.callee args reply) (by rw [Raft.handle, h]; rfl)
      (by simp) (by simp) (by simp) rfl rfl
  | @installSnapshotReply p args reply log hp hr he =>
    exact hhandle (x := .installSnapshotReply p.callee args reply) rfl (by simp) (by simp)
      (by simp) rfl rfl

end Begun

namespace Cluster

variable {H : Raft n C (List C) → ApplyEntriesArgs n C → Prop} {s s' : Cluster n C}
  {past tr : List (Cluster n C)} {index prev prev' p q : ℕ} {e e' : LogEntry C}

lemma Run.begun (htr : Run H (s :: past)) (i : Fin n) :
    (s.nodes i).Busy → (s.raft i).Begun := by
  refine Trace.invariant (P := fun s _ => (s.nodes i).Busy → (s.raft i).Begun) ?_ ?_ htr
  · rintro (h | h | h | h)
    · exact absurd rfl h
    · exact absurd rfl h
    · cases h
    · exact absurd rfl h
  · intro s past e s' htr hi hok hs
    obtain ⟨j, node, got, sent, hturn, hm⟩ := step_turn hok hs
    by_cases hij : i = j
    · subst hij
      unfold raft
      rw [hm.self]
      exact hturn.busy ((Run.shapely htr).1 i) hi
    · unfold raft
      rw [hm.other hij]
      exact hi

/-! ### Where the term of slot `0` comes from -/

/-- An entry of term `t` has been made at `d` or before; or `t` is the `0` of an index before all
entries. -/
def Rooted (tr : List (Cluster n C)) (d t : ℕ) : Prop :=
  (d = 0 ∧ t = 0) ∨ ∃ p ≤ d, ∃ e prev, e.term = t ∧ Made tr p e prev

lemma Rooted.mono {d t : ℕ} (h : Rooted past d t) : Rooted (s :: past) d t := by
  rcases h with h | ⟨p, hp, e, prev, ht, h⟩
  · exact Or.inl h
  · exact Or.inr ⟨p, hp, e, prev, ht, h.mono⟩

lemma Rooted.zero_iff (htr : Run H tr) {d t : ℕ} (h : Rooted tr d t) : d = 0 ↔ t = 0 := by
  rcases h with ⟨rfl, rfl⟩ | ⟨p, hp, e, prev, rfl, h⟩
  · exact Iff.rfl
  · have := h.pos htr
    obtain ⟨s, -, i, -, -, hat⟩ := h
    have := hat.lt
    omega

omit [Inhabited C] in
lemma Rooted.raise {d d' t : ℕ} (h : Rooted tr d t) (hd : d ≤ d') (ht : 0 < t) :
    Rooted tr d' t := by
  rcases h with ⟨-, rfl⟩ | ⟨p, hp, h⟩
  · omega
  · exact Or.inr ⟨p, hp.trans hd, h⟩

/-- The terms of all slots `0`, and of those that are on their way, are rooted. -/
structure Rooting (s : Cluster n C) (past : List (Cluster n C)) : Prop where
  slot : ∀ i e, (s.raft i).logs[0]? = some e → Rooted (s :: past) (s.raft i).discardCount e.term
  sent : ∀ p ∈ s.net, ∀ args, p.rpc = .installSnapshot args →
    Rooted (s :: past) args.lastIncludedIndex args.lastIncludedTerm

/-- With slot `0` every place of a log is rooted. -/
lemma Rooting.place (htr : Run H (s :: past)) (h : Rooting s past) {i : Fin n} {k : ℕ}
    (he : (s.raft i).logs[k]? = some e) : Rooted (s :: past) ((s.raft i).discardCount + k) e.term := by
  cases k with
  | zero => exact h.slot i e he
  | succ k =>
    obtain ⟨hk, -⟩ := List.getElem?_eq_some_iff.1 he
    have hat : At (s.raft i).logs (s.raft i).discardCount ((s.raft i).discardCount + k + 1) e
        (s.raft i).logs[k].term := ⟨k, _, List.getElem?_eq_getElem (by omega), he, rfl, rfl⟩
    exact Or.inr ⟨_, le_rfl, e, _, rfl, htr.matched.made i _ _ _ hat⟩

/-- Compaction beyond index `0` of a log that has had entries makes slot `0` of one of them. -/
lemma Rooting.discard (htr : Run H (s :: past)) (h : Rooting s past) {i : Fin n} {m : ℕ}
    (hb : (s.raft i).Begun) (hm : (s.raft i).discardCount < m)
    (he : ((s.raft i).store.discard m).logs[0]? = some e) : Rooted (s :: past) m e.term := by
  change ((s.raft i).logs.drop _)[0]? = some e at he
  rw [List.getElem?_drop, Nat.add_zero] at he
  have hroot := h.place htr he
  refine hroot.raise (by change _ + min _ (m - (s.raft i).discardCount) ≤ m; omega) ?_
  rw [Nat.pos_iff_ne_zero, ne_eq, ← hroot.zero_iff htr]
  change ¬ _ + min ((s.raft i).logs.length - 1) (m - (s.raft i).discardCount) = 0
  unfold Raft.Begun at hb
  omega

/-- A turn leaves a slot `0` that is rooted: the old one, an entry of the log, or the one that comes
with a snapshot. -/
lemma Rooting.turn (htr : Run H (s :: past)) (hi : Rooting s past) {i : Fin n} {node : Node n C}
    {got : Option (Packet n C)} {sent : List (Packet n C)}
    (hturn : Turn H i (s.nodes i) node got sent) (hm : s.Moved s' i node got sent)
    (he : node.raft.logs[0]? = some e) : Rooted (s :: past) node.raft.discardCount e.term := by
  have hshape := (Run.shapely htr).1 i
  have hdisc : (s.raft i).discardCount = (s.raft i).lastIncludedIndex := hshape.discard
  change node.raft.store.logs[0]? = some e at he
  change Rooted _ node.raft.store.discardCount _
  rcases hturn.store_cases with (h | h) | ⟨c, -, -, h⟩ |
    ⟨p, args, rfl, -, -, -, hle, ⟨x, hx, -⟩, -, h⟩ | ⟨k, happ, hk, h⟩ |
    ⟨p, args, rfl, -, hr, -, hk, -, h⟩ | ⟨-, h⟩
  · rw [h] at he ⊢
    exact hi.slot i e he
  · rw [h] at he ⊢
    exact hi.slot i e he
  · rw [h] at he ⊢
    change ((s.raft i).store.logs ++ [_])[0]? = some e at he
    rw [List.getElem?_append_left (List.length_pos_iff.2 hshape.logs_ne)] at he
    exact hi.slot i e he
  · rw [h] at he ⊢
    change ((s.nodes i).raft.store.splice args).logs[0]? = some e at he
    rw [Store.splice_getElem?_of_lt hx (Nat.sub_pos_of_lt (Nat.lt_succ_of_le hle))] at he
    exact hi.slot i e he
  · rw [h] at he ⊢
    have hbusy : (s.nodes i).Busy := Or.inl (List.length_pos_iff.1 (Nat.zero_lt_of_lt
      (Nat.lt_of_lt_of_le hk happ)))
    exact hi.discard htr (Run.begun htr i hbusy) (hdisc.trans_lt hk) he
  · rw [h] at he ⊢
    change ((s.nodes i).raft.store.install args).logs[0]? = some e at he
    change Rooted _ ((s.nodes i).raft.store.install args).discardCount _
    unfold Store.install at he ⊢
    split at he
    · rename_i hc
      rw [if_pos hc]
      obtain ⟨x, hx, -⟩ := Option.map_eq_some_iff.1 hc.2
      obtain ⟨hlen, -⟩ := List.getElem?_eq_some_iff.1 hx
      have hlt := hc.1
      have hb : (s.raft i).Begun := Or.inl (by
        change 2 ≤ (s.nodes i).raft.store.logs.length
        omega)
      exact hi.discard htr hb hlt he
    · rename_i hc
      rw [if_neg hc]
      -- slot `0` is made up from the message
      change (List.drop _ [_])[0]? = some e at he
      have hterm : e.term = args.lastIncludedTerm := by
        rw [List.mem_singleton.1 (List.mem_of_mem_drop (List.mem_of_getElem? he))]
      rw [hterm]
      exact hi.sent p hm.mem_got args hr
  · rw [h, show (s.nodes i).raft.store.restart = (s.nodes i).raft.store from
      hshape.restart] at he ⊢
    exact hi.slot i e he

lemma Run.rooting (htr : Run H (s :: past)) : Rooting s past := by
  refine Trace.invariant (P := Rooting) ?_ ?_ htr
  · refine ⟨fun i e he => Or.inl ?_, fun p hp => by cases hp⟩
    cases he
    exact ⟨rfl, rfl⟩
  · intro s past e₀ s' htr hi hok hs
    obtain ⟨i, node, got, sent, hturn, hm⟩ := step_turn hok hs
    have hnode : ∀ e, node.raft.logs[0]? = some e →
        Rooted (s' :: s :: past) node.raft.discardCount e.term := fun e he =>
      (hi.turn htr hturn hm he).mono
    refine ⟨?_, fun p hp args hr => ?_⟩
    · exact hm.forall_nodes (P := fun _ node => ∀ e, node.raft.logs[0]? = some e →
        Rooted (s' :: s :: past) node.raft.discardCount e.term)
        hnode fun j _ e he => (hi.slot j e he).mono
    · rcases hm.mem_net hp with hp | hp
      · exact (hi.sent p hp args hr).mono
      · -- a leader sends the slot `0` it has now
        have h := hturn.sent_beat hp (Or.inr ⟨args, hr⟩)
        rw [hr] at h
        obtain ⟨e, he, -, h⟩ | ⟨k, e, -, h⟩ := Raft.heartBeatTo_cases h
        · cases h
          have hroot := hnode e he
          have hd : node.raft.discardCount = node.raft.lastIncludedIndex := by
            have := ((Run.shapely (.step e₀ htr hok hs)).1 i).discard
            rwa [hm.raft_self] at this
          rwa [hd] at hroot
        · cases h

/-! ### What a leader knows of a follower's term -/

section Conflict

variable (htr : Run H (s :: past)) {l f : Fin n} {x y z : LogEntry C}
  (hl : (s.raft l).discardCount ≤ index)
  (hx : (s.raft l).logs[index - (s.raft l).discardCount]? = some x)
  (hf : (s.raft f).discardCount ≤ index)
  (hy : (s.raft f).logs[index - (s.raft f).discardCount]? = some y) (hne : x.term ≠ y.term)

include htr hl hx hf hy hne

/-- A term that conflicts is not the `0` of the index before all entries. -/
lemma Run.conflict_pos : 0 < index ∧ 0 < y.term := by
  have hrx := (Run.rooting htr).place htr hx
  have hry := (Run.rooting htr).place htr hy
  rw [Nat.add_sub_cancel' hl] at hrx
  rw [Nat.add_sub_cancel' hf] at hry
  have h₁ := hrx.zero_iff htr
  have h₂ := hry.zero_iff htr
  omega

/-- **The third case does not jump forward.**  If two logs have different terms at an index, the
entries that one log has of the other's term are not beyond that index. -/
lemma Run.known_term_le {k : ℕ} (hz : (s.raft l).logs[k]? = some z) (hzy : z.term = y.term) :
    (s.raft l).discardCount + k ≤ index := by
  by_contra hlt
  push Not at hlt
  have hasc := htr.ascending l
  have hxz := hasc.le (by omega) hx hz
  -- the first entry of that term stands on an earlier term
  have hfirst : index - (s.raft l).discardCount < firstOf (s.raft l).logs y.term :=
    (lt_firstOf_iff hasc hx).2 (by omega)
  have hle : firstOf (s.raft l).logs y.term ≤ k := by
    rw [← not_lt, lt_firstOf_iff hasc hz]
    omega
  obtain ⟨hk, -⟩ := List.getElem?_eq_some_iff.1 hz
  obtain ⟨j, hj⟩ : ∃ j, firstOf (s.raft l).logs y.term = j + 1 := ⟨_, (Nat.sub_add_cancel
    (by omega)).symm⟩
  obtain ⟨w, hw⟩ : ∃ w, (s.raft l).logs[j + 1]? = some w := ⟨_, List.getElem?_eq_getElem (by omega)⟩
  obtain ⟨v, hv⟩ : ∃ v, (s.raft l).logs[j]? = some v := ⟨_, List.getElem?_eq_getElem (by omega)⟩
  have hvterm : v.term < y.term := (lt_firstOf_iff hasc hv).1 (by omega)
  have hwterm : w.term = y.term := by
    have h₁ : ¬ w.term < y.term := fun h => by
      have := (lt_firstOf_iff hasc hw).2 h
      omega
    have h₂ := hasc.le (by omega) hw hz
    omega
  have hmade := htr.matched.made l _ _ _ ⟨j, _, hv, hw, rfl, rfl⟩
  -- but an entry of that term was made further down
  rcases (Run.rooting htr).place htr hy with ⟨-, h0⟩ | ⟨p, hp, e, prev, het, he⟩
  · omega
  · have := he.above htr hmade (het.trans hwterm.symm) (by omega)
    omega

/-- An entry of a conflicting term is not at index `0`. -/
lemma Run.conflict_index_pos {i : Fin n} {k : ℕ} (hz : (s.raft i).logs[k]? = some z)
    (hzy : y.term ≤ z.term) : 0 < (s.raft i).discardCount + k := by
  have h₁ := (htr.conflict_pos hl hx hf hy hne).2
  have h₂ := ((Run.rooting htr).place htr hz).zero_iff htr
  omega

end Conflict

end Cluster

/-! ### An exchange that ends in a rejection -/

namespace Raft

variable {rf rf' : Raft n C σ} {args : ApplyEntriesArgs n C} {reply : ApplyEntriesReply}

/-- The leader `p.1` sends its `ApplyEntries` to its peer `f`, which is in state `p.2`, and processes
the answer, which is a rejection. -/
def rejection (f : Fin n) (p : Raft n C σ × Raft n C σ) : Option (Raft n C σ × Raft n C σ) :=
  match p.1.heartBeatTo f with
  | some (.applyEntries args) =>
    (p.2.applyEntries args).bind fun r =>
      if r.2.success then none
      else (p.1.sendApplyEntriesTo f args r.2).map fun leader => (leader, r.1)
  | _ => none

/-- So many rejections in a row. -/
def rejections (f : Fin n) : ℕ → Raft n C σ × Raft n C σ → Option (Raft n C σ × Raft n C σ)
  | 0, p => some p
  | count + 1, p => (rejection f p).bind (rejections f count)

lemma rejection_cases {f : Fin n} {leader leader' peer peer' : Raft n C σ}
    (h : rejection f (leader, peer) = some (leader', peer')) : ∃ args reply,
      leader.heartBeatTo f = some (.applyEntries args) ∧
      peer.applyEntries args = some (peer', reply) ∧ reply.success = false ∧
      leader.sendApplyEntriesTo f args reply = some leader' := by
  unfold rejection at h
  split at h
  · rename_i args hbeat
    obtain ⟨⟨b, reply⟩, hb, h⟩ := Option.bind_eq_some_iff.1 h
    split at h
    · cases h
    · rename_i hs
      obtain ⟨a, ha, h⟩ := Option.map_eq_some_iff.1 h
      cases h
      exact ⟨args, reply, hbeat, hb, by simpa using hs, ha⟩
  · cases h

/-- The entries that `sendHeartBeat` sends start at `nextIndex` or at the end of the log, whichever
comes first. -/
lemma heartBeatTo_applyEntries {i : Fin n} (h : rf.heartBeatTo i = some (.applyEntries args)) :
    args.term = rf.currentTerm ∧ args.prevLogIndex < rf.nextIndex i ∧
      rf.discardCount ≤ args.prevLogIndex ∧
      ∃ e, rf.logs[args.prevLogIndex - rf.discardCount]? = some e ∧ e.term = args.prevLogTerm := by
  have hlt : args.prevLogIndex < rf.nextIndex i := by
    dsimp only [heartBeatTo] at h
    split_ifs at h with hsnap hlong hpanic
    · obtain ⟨e, -, h⟩ := Option.map_eq_some_iff.1 h
      cases h
    · obtain ⟨e, -, h⟩ := Option.map_eq_some_iff.1 h
      cases h
      exact Nat.sub_lt (by omega) Nat.one_pos
    · obtain ⟨e, -, h⟩ := Option.map_eq_some_iff.1 h
      cases h
      exact not_le.1 hlong
  obtain ⟨e, -, -, h⟩ | ⟨k, e, he, h⟩ := heartBeatTo_cases h
  · cases h
  · cases h
    refine ⟨rfl, hlt, Nat.le_add_left _ _, e, ?_, rfl⟩
    unfold raftIndex
    rwa [Nat.add_sub_cancel]

/-- A rejection by a follower that has recognised the leader comes from the check. -/
lemma applyEntries_rejected (hle : rf.currentTerm ≤ args.term)
    (h : rf.applyEntries args = some (rf', reply)) (hs : reply.success = false) :
    rf' = (rf.followLeader args.term).persist ∧
      (rf.followLeader args.term).replicateCheck args = some false ∧
      (rf.followLeader args.term).rejectEntries args = some reply := by
  unfold applyEntries at h
  rw [if_neg (not_lt.2 hle)] at h
  obtain ⟨passed, hpassed, h⟩ := Option.bind_eq_some_iff.1 h
  cases passed with
  | true =>
    cases h
    cases hs
  | false =>
    obtain ⟨r, hr, h⟩ := Option.map_eq_some_iff.1 h
    cases h
    exact ⟨rfl, hpassed, hr⟩

/-- A failed check found no entry at the previous index, or one of another term. -/
lemma replicateCheck_false (hd : rf.discardCount = rf.lastIncludedIndex)
    (h : rf.replicateCheck args = some false) (hle : rf.discardCount ≤ args.prevLogIndex)
    {e : LogEntry C} (he : rf.logs[args.prevLogIndex - rf.discardCount]? = some e) :
    e.term ≠ args.prevLogTerm := by
  obtain ⟨hlen, -⟩ := List.getElem?_eq_some_iff.1 he
  have hentry := entry_of_realIndex hle he
  dsimp only [replicateCheck] at h
  rw [hentry, Option.map_some] at h
  unfold realIndex at h
  split_ifs at h with h₁ h₂ h₃ h₄
  · omega
  · simpa using h
  · omega
  · simpa using h
  · omega

/-- The leader backs up on a rejection of its own term. -/
lemma sendApplyEntriesTo_rejected (server : Fin n) (hargs : args.term = rf.currentTerm)
    (hreply : reply.term = rf.currentTerm) (hs : reply.success = false) :
    rf.sendApplyEntriesTo server args reply = (rf.backUp reply).map fun index =>
      { rf with nextIndex := Function.update rf.nextIndex server index } := by
  unfold sendApplyEntriesTo
  rw [if_neg (by omega), if_pos hs, if_neg (by omega)]

end Raft

namespace Cluster

variable {H : Raft n C (List C) → ApplyEntriesArgs n C → Prop} {s : Cluster n C}
  {past : List (Cluster n C)} {l f : Fin n} {args : ApplyEntriesArgs n C}
  {reply : ApplyEntriesReply} {sender leader peer peer' : Raft n C (List C)}

/-- **Backing up is progress**: what the follower answers to a previous index that it does not have,
or has with another term, moves the leader to an index between `1` and the previous one. -/
lemma Run.backUp_le (htr : Run H (s :: past)) {follower : Raft n C (List C)}
    (hleader : leader.store = (s.raft l).store) (hfollower : follower.store = (s.raft f).store)
    (hd : leader.discardCount ≤ args.prevLogIndex) {x : LogEntry C}
    (hx : leader.logs[args.prevLogIndex - leader.discardCount]? = some x)
    (hxt : x.term = args.prevLogTerm) (hcheck : follower.replicateCheck args = some false)
    (h : follower.rejectEntries args = some reply) (hs : reply.success = false) :
    reply.term = follower.currentTerm ∧
      ∃ index, leader.backUp reply = some index ∧ 1 ≤ index ∧ index ≤ args.prevLogIndex := by
  -- the logs are those of the run
  have hll : leader.logs = (s.raft l).logs := congrArg Store.logs hleader
  have hld : leader.discardCount = (s.raft l).discardCount := congrArg Store.discardCount hleader
  have hfl : follower.logs = (s.raft f).logs := congrArg Store.logs hfollower
  have hfd : follower.discardCount = (s.raft f).discardCount :=
    congrArg Store.discardCount hfollower
  have hinc : follower.discardCount = follower.lastIncludedIndex := by
    have hshape : follower.store.Shape := hfollower.symm ▸ (Run.shapely htr).1 f
    exact hshape.discard
  have hlne : leader.logs ≠ [] := hll ▸ ((Run.shapely htr).1 l).logs_ne
  have hfne : follower.logs ≠ [] := hfl ▸ ((Run.shapely htr).1 f).logs_ne
  have hlasc : Ascending leader.logs := hll ▸ htr.ascending l
  have hfasc : Ascending follower.logs := hfl ▸ htr.ascending f
  rw [hll, hld] at hx
  rw [hld] at hd
  obtain ⟨r, hr, hcase⟩ := Raft.rejectEntries_cases hfne hfasc args
  obtain rfl : r = reply := Option.some.inj (hr.symm.trans h)
  obtain ⟨-, hsuc⟩ | ⟨hshort, rfl⟩ | ⟨hfle, y, hy, rfl⟩ := hcase
  · rw [hs] at hsuc
    cases hsuc
  · -- the log of the follower is too short
    refine ⟨rfl, follower.raftIndex follower.logs.length, rfl, ?_, hshort⟩
    have := List.length_pos_iff.2 hfne
    unfold Raft.raftIndex
    omega
  · refine ⟨rfl, ?_⟩
    have hne : x.term ≠ y.term := by
      rw [hxt]
      exact (Raft.replicateCheck_false hinc hcheck hfle hy).symm
    have hfirst : firstOf follower.logs y.term ≤ args.prevLogIndex - follower.discardCount := by
      rw [← not_lt, lt_firstOf_iff hfasc hy]
      exact lt_irrefl _
    have hxle : follower.raftIndex (firstOf follower.logs y.term) ≤ args.prevLogIndex := by
      unfold Raft.raftIndex
      omega
    rw [hfl, hfd] at hy
    rw [hfd] at hfle
    have hxpos : 1 ≤ follower.raftIndex (firstOf follower.logs y.term) := by
      obtain ⟨hylen, -⟩ := List.getElem?_eq_some_iff.1 hy
      rw [hfl, hfd] at hfirst
      have hz := List.getElem?_eq_getElem (hfirst.trans_lt hylen)
      have := htr.conflict_index_pos hd hx hfle hy hne hz (le_term_firstOf hz)
      unfold Raft.raftIndex
      rw [hfl, hfd]
      omega
    obtain ⟨hinv, -⟩ | ⟨-, hb⟩ | ⟨-, k, z, hz, hzt, hb⟩ := Raft.backUp_cases hlne hlasc
      { term := follower.currentTerm, success := false, xTerm := y.term,
        xIndex := follower.raftIndex (firstOf follower.logs y.term),
        xLen := follower.raftIndex follower.logs.length }
    · have : ((follower.raftIndex (firstOf follower.logs y.term) : ℕ) : ℤ) = invalidIndex := hinv
      unfold invalidIndex at this
      omega
    · -- a term that the leader does not know
      exact ⟨_, hb, hxpos, hxle⟩
    · -- a term that the leader knows
      rw [hll] at hz
      have hpos := htr.conflict_index_pos hd hx hfle hy hne hz hzt.ge
      have hle := htr.known_term_le hd hx hfle hy hne hz hzt
      refine ⟨_, hb, ?_, ?_⟩
      · unfold Raft.raftIndex
        omega
      · unfold Raft.raftIndex
        omega

/-- **Every rejection is progress**, as long as the logs of the leader and of the peer are what they
were in some state of a run. -/
lemma Run.rejected (htr : Run H (s :: past)) (hsender : sender.store = (s.raft l).store)
    (hleader : leader.store = (s.raft l).store) (hpeer : peer.store = (s.raft f).store)
    (hterm : leader.currentTerm = sender.currentTerm)
    (hle : peer.currentTerm ≤ sender.currentTerm)
    (hbeat : sender.heartBeatTo f = some (.applyEntries args))
    (h : peer.applyEntries args = some (peer', reply)) (hs : reply.success = false) :
    peer'.store = (s.raft f).store ∧ peer'.currentTerm = sender.currentTerm ∧ ∃ leader',
      leader.sendApplyEntriesTo f args reply = some leader' ∧
      leader'.store = (s.raft l).store ∧ leader'.currentTerm = sender.currentTerm ∧
      1 ≤ leader'.nextIndex f ∧ leader'.nextIndex f ≤ args.prevLogIndex := by
  obtain ⟨hargs, -, hd, x, hx, hxt⟩ := Raft.heartBeatTo_applyEntries hbeat
  have hpast : peer.currentTerm ≤ args.term := hargs.symm ▸ hle
  obtain ⟨rfl, hcheck, hrej⟩ := Raft.applyEntries_rejected hpast h hs
  have hstore : (peer.followLeader args.term).store = (s.raft f).store :=
    (Raft.store_followLeader hpast).trans hpeer
  have hcur : (peer.followLeader args.term).currentTerm = args.term := by
    rw [Raft.followLeader_currentTerm]
    exact max_eq_right hpast
  -- the message was built from the log that the leader still has
  have hlogs : sender.logs = leader.logs := congrArg Store.logs (hsender.trans hleader.symm)
  have hdisc : sender.discardCount = leader.discardCount :=
    congrArg Store.discardCount (hsender.trans hleader.symm)
  rw [hlogs, hdisc] at hx
  rw [hdisc] at hd
  obtain ⟨hrt, index, hb, hpos, hindex⟩ :=
    htr.backUp_le hleader hstore hd hx hxt hcheck hrej hs
  refine ⟨?_, hcur.trans hargs, ?_⟩
  · rw [Raft.store_persist, hstore]
    exact ((Run.shapely htr).1 f).save_eq
  · rw [Raft.sendApplyEntriesTo_rejected f (hargs.trans hterm.symm)
      (hrt.trans (hcur.trans (hargs.trans hterm.symm))) hs, hb]
    refine ⟨_, rfl, hleader, hterm, ?_⟩
    dsimp only
    rw [Function.update_self]
    exact ⟨hpos, hindex⟩

/-- Every rejection uses up some of `nextIndex`. -/
lemma Run.rejections_le (htr : Run H (s :: past)) {count : ℕ}
    {r : Raft n C (List C) × Raft n C (List C)} (hleader : leader.store = (s.raft l).store)
    (hpeer : peer.store = (s.raft f).store) (hle : peer.currentTerm ≤ leader.currentTerm)
    (h : Raft.rejections f count (leader, peer) = some r) : count ≤ leader.nextIndex f := by
  induction count generalizing leader peer with
  | zero => exact Nat.zero_le _
  | succ count ih =>
    obtain ⟨⟨leader', peer'⟩, hrej, h⟩ := Option.bind_eq_some_iff.1 h
    obtain ⟨args, reply, hbeat, happ, hs, hsend⟩ := Raft.rejection_cases hrej
    obtain ⟨hpeer', hterm, a, hsend', hstore, hterm', -, hindex⟩ :=
      htr.rejected hleader hleader hpeer rfl hle hbeat happ hs
    obtain rfl : leader' = a := Option.some.inj (hsend.symm.trans hsend')
    have hcount := ih hstore hpeer' (hterm.trans hterm'.symm).le h
    obtain ⟨-, hlt, -⟩ := Raft.heartBeatTo_applyEntries hbeat
    omega

/-- **Fast backup always makes progress.**  In every reachable state: when the `ApplyEntries` that
server `l` builds for a peer `f` of no higher term is rejected, and the logs of both are still the
same when it is delivered and when the rejection is processed, `nextIndex` becomes at least `1` and
at most the previous index of the rejected message.  With no other steps there are at most
`nextIndex` rejections in a row. -/
theorem fast_backup_progress {s : Cluster n C} (h : Reachable step anyStep init s) {l f : Fin n}
    (hle : (s.raft f).currentTerm ≤ (s.raft l).currentTerm) :
    (∀ (args : ApplyEntriesArgs n C) (leader peer peer' : Raft n C (List C))
      (reply : ApplyEntriesReply), (s.raft l).heartBeatTo f = some (.applyEntries args) →
      peer.store = (s.raft f).store → peer.currentTerm ≤ args.term →
      peer.applyEntries args = some (peer', reply) → reply.success = false →
      leader.store = (s.raft l).store → leader.currentTerm = (s.raft l).currentTerm →
      ∃ leader', leader.sendApplyEntriesTo f args reply = some leader' ∧
        1 ≤ leader'.nextIndex f ∧ leader'.nextIndex f ≤ args.prevLogIndex) ∧
    ∀ count r, Raft.rejections f count (s.raft l, s.raft f) = some r →
      count ≤ (s.raft l).nextIndex f := by
  obtain ⟨past, htr⟩ := h
  have hrun : Run Unrestricted (s :: past) := htr.mono fun s e _ => heeds_unrestricted s e
  refine ⟨?_, fun count r hr => hrun.rejections_le rfl rfl hle hr⟩
  intro args leader peer peer' reply hbeat hpeer hle happ hs hleader hterm
  have hargs := (Raft.heartBeatTo_applyEntries hbeat).1
  obtain ⟨-, -, leader', hsend, -, -, hindex⟩ :=
    hrun.rejected rfl hleader hpeer hterm (hargs ▸ hle) hbeat happ hs
  exact ⟨leader', hsend, hindex⟩

/-- Server `0` leads again after a crash and does not know that server `1` has missed its entry. -/
def missedEntry : List (Event 3 ℕ) :=
  [.electionTimeout 0, .deliver 0, .deliver 1, .start 0 10, .crash 0, .electionTimeout 0,
    .deliver 3, .deliver 4]

theorem fast_backup_progress_missed_entry : ∃ s : Cluster 3 ℕ, Reachable step anyStep init s ∧
    ∃ args peer' reply leader', (s.raft 0).heartBeatTo 1 = some (.applyEntries args) ∧
      (s.raft 1).applyEntries args = some (peer', reply) ∧ reply.success = false ∧
      (s.raft 0).sendApplyEntriesTo 1 args reply = some leader' ∧
      1 ≤ leader'.nextIndex 1 ∧ leader'.nextIndex 1 ≤ args.prevLogIndex := by
  have hrun : ((run step (init : Cluster 3 ℕ) missedEntry).map fun s =>
      decide ((s.raft 0).heartBeatTo 1 = some (.applyEntries ⟨2, 0, 1, 1, [], 0⟩) ∧
        (s.raft 1).currentTerm = 2 ∧ (s.raft 0).currentTerm = 2 ∧
        ((s.raft 1).applyEntries ⟨2, 0, 1, 1, [], 0⟩).map (fun r => r.2.success) =
          some false)) = some true := by
    decide +kernel
  obtain ⟨s, hs, heq⟩ := Option.map_eq_some_iff.1 hrun
  obtain ⟨hbeat, hpeer, hleader, happ⟩ := of_decide_eq_true heq
  obtain ⟨⟨peer', reply⟩, happ, hsuc⟩ := Option.map_eq_some_iff.1 happ
  have hreach := Reachable.init.run hs
  have hle : (s.raft 1).currentTerm ≤ (s.raft 0).currentTerm := by omega
  obtain ⟨leader', hsend, hpos, hprev⟩ := (fast_backup_progress hreach hle).1 _ (s.raft 0)
    (s.raft 1) peer' reply hbeat rfl hpeer.le happ hsuc rfl rfl
  exact ⟨s, hreach, _, peer', reply, leader', hbeat, happ, hsuc, hsend, hpos, hprev⟩

end Cluster

end RaftLabs
