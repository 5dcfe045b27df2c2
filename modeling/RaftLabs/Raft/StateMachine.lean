import RaftLabs.Raft.Safety

/-!
# State machine safety

What the services are delivered.  Together with the servers' logs, the messages and the votes this
makes up the invariant `Inv` of a run, and `Run.inv` is the induction over the run: every turn is one
of the turns of `Raft.Safety`, and the records stay lawful.

* `state_machine_safety`: no two servers ever deliver different commands at an index, in every run
  in which `Raft.HoldsHidden` is heeded;
* `replication_sound`: what a leader puts into `matchIndex` its follower had, in these runs.

Without `Raft.HoldsHidden` both fail: `hiddenEntries` is a run in which a follower answers `Success`
to entries that its snapshot covers only in part.
-/

set_option linter.unusedSectionVars false

namespace RaftLabs

open Lib

variable {n : ℕ} {C : Type} [Inhabited C]

namespace Cluster

variable {H : Raft n C (List C) → ApplyEntriesArgs n C → Prop} {s s' : Cluster n C}
  {past tr : List (Cluster n C)} {i : Fin n}

/-! ### The service above a server -/

/-- `q` is committed. -/
def Known (tr : List (Cluster n C)) (q : List (LogEntry C)) : Prop :=
  ∃ t, (ledger tr).Safe LogEntry.term t q

/-- The command of a committed entry, with its index. -/
def Knows (tr : List (Cluster n C)) (d : ℕ × C) : Prop :=
  1 ≤ d.1 ∧ ∃ q e, Known tr q ∧ q[d.1 - 1]? = some e ∧ e.command = d.2

/-- A message of `applyLog` is about committed entries up to index `k`. -/
def Tells (tr : List (Cluster n C)) (k : ℕ) : ApplyMsg C (List C) → Prop
  | .command c index => Knows tr (index, c) ∧ index ≤ k
  | .snapshot none _ _ => True
  | .snapshot (some d) _ _ =>
    ∃ q, Known tr q ∧ d.state = q.map LogEntry.command ∧ q.length ≤ k

/-- How far the service may have come. -/
def position (rf : Raft n C (List C)) : ℕ := max rf.lastApplied rf.lastIncludedIndex

/-- What holds of the service of a server after the run `tr`. -/
structure Served (tr : List (Cluster n C)) (node : Node n C) : Prop where
  applied : ∃ q, Known tr q ∧ node.applied = q.map LogEntry.command ∧ q.length ≤ position node.raft
  batch : ∀ msg ∈ node.batch, Tells tr (position node.raft) msg
  delivered : ∀ d ∈ node.delivered, Knows tr d

lemma Known.mono {q : List (LogEntry C)} (h : Known past q) : Known (s :: past) q := by
  obtain ⟨t, h⟩ := h
  exact ⟨t, h.le ledger_le⟩

lemma Knows.mono {d : ℕ × C} (h : Knows past d) : Knows (s :: past) d := by
  obtain ⟨hpos, q, e, hq, h⟩ := h
  exact ⟨hpos, q, e, hq.mono, h⟩

lemma Tells.mono {k k' : ℕ} {msg : ApplyMsg C (List C)} (h : Tells past k msg) (hk : k ≤ k') :
    Tells (s :: past) k' msg := by
  unfold Tells at h ⊢
  split at h
  · exact ⟨h.1.mono, h.2.trans hk⟩
  · trivial
  · obtain ⟨q, hq, hstate, hlen⟩ := h
    exact ⟨q, hq.mono, hstate, hlen.trans hk⟩

/-- The service stays as it is. -/
lemma Served.keep {node node' : Node n C} (h : Served past node)
    (happ : node'.applied = node.applied) (hbatch : node'.batch = node.batch)
    (hdel : node'.delivered = node.delivered) (hpos : position node.raft ≤ position node'.raft) :
    Served (s :: past) node' := by
  obtain ⟨q, hq, heq, hlen⟩ := h.applied
  refine ⟨⟨q, hq.mono, happ.trans heq, hlen.trans hpos⟩, fun msg hmsg => ?_, fun d hd => ?_⟩
  · exact (h.batch msg (hbatch ▸ hmsg)).mono hpos
  · exact (h.delivered d (hdel ▸ hd)).mono

/-- Committed logs of the same length are the same. -/
lemma Known.eq (hL : (ledger tr).Lawful LogEntry.term) {q q' : List (LogEntry C)} (h : Known tr q)
    (h' : Known tr q') (hlen : q.length = q'.length) : q = q' := by
  obtain ⟨t, h⟩ := h
  obtain ⟨t', h'⟩ := h'
  rcases hL.safe_comparable h h' with hpre | hpre
  · exact hpre.eq_of_length hlen
  · exact (hpre.eq_of_length hlen.symm).symm

lemma Known.take {q : List (LogEntry C)} (h : Known tr q) (k : ℕ) : Known tr (q.take k) := by
  obtain ⟨t, h⟩ := h
  exact ⟨t, h.piece (List.take_prefix _ _)⟩

lemma Knows.of_known {q : List (LogEntry C)} (h : Known tr q) {k : ℕ} {e : LogEntry C}
    (he : q[k]? = some e) : Knows tr (k + 1, e.command) :=
  ⟨Nat.le_add_left 1 k, q, e, h, he, rfl⟩

/-- **The service takes a message.** -/
lemma Served.take (hL : (ledger past).Lawful LogEntry.term) {node : Node n C}
    {msg : ApplyMsg C (List C)} {batch : List (ApplyMsg C (List C))} (h : Served past node)
    (hb : node.batch = msg :: batch) :
    Served (s :: past) ({ node with batch := batch }.take msg) := by
  have hmsg := h.batch msg (hb ▸ List.mem_cons_self)
  have hbatch : ∀ m ∈ batch, Tells (s :: past) (position node.raft) m := fun m hm =>
    (h.batch m (hb ▸ List.mem_cons_of_mem _ hm)).mono le_rfl
  obtain ⟨q₀, hq₀, happ, hlen₀⟩ := h.applied
  have hdel : ∀ d ∈ node.delivered, Knows (s :: past) d := fun d hd => (h.delivered d hd).mono
  cases msg with
  | command c index =>
    obtain ⟨hknows, hle⟩ := hmsg
    refine ⟨?_, hbatch, fun d hd => ?_⟩
    · change ∃ q, Known (s :: past) q ∧ (if index = node.applied.length + 1 then node.applied ++ [c]
        else node.applied) = q.map LogEntry.command ∧ q.length ≤ position node.raft
      split
      · rename_i hnext
        obtain ⟨-, q, e, hq, he, rfl⟩ := hknows
        obtain ⟨hlt, -⟩ := List.getElem?_eq_some_iff.1 he
        change q[index - 1]? = some e at he
        have hlen : q₀.length = index - 1 := by
          rw [hnext, happ, List.length_map]
          rfl
        have hqt : q₀ = q.take (index - 1) := by
          refine hq₀.eq hL (hq.take _) ?_
          rw [List.length_take, hlen]
          change index - 1 < q.length at hlt
          omega
        refine ⟨q.take index, (hq.take index).mono, ?_, ?_⟩
        · rw [happ, hqt, show index = index - 1 + 1 by omega, List.take_add_one, he]
          simp
        · exact (List.length_take_le _ _).trans hle
      · exact ⟨q₀, hq₀.mono, happ, hlen₀⟩
    · rcases List.mem_append.1 hd with hd | hd
      · exact hdel d hd
      · rw [List.mem_singleton.1 hd]
        exact hknows.mono
  | snapshot data term index =>
    cases data with
    | none => exact ⟨⟨q₀, hq₀.mono, happ, hlen₀⟩, hbatch, hdel⟩
    | some data =>
      obtain ⟨q, hq, hstate, hlen⟩ := hmsg
      refine ⟨?_, hbatch, fun d hd => ?_⟩
      · change ∃ q, Known (s :: past) q ∧ (if index < node.applied.length then node.applied
          else data.state) = q.map LogEntry.command ∧ q.length ≤ position node.raft
        split
        · exact ⟨q₀, hq₀.mono, happ, hlen₀⟩
        · exact ⟨q, hq.mono, hstate, hlen⟩
      · rcases List.mem_append.1 hd with hd | hd
        · exact hdel d hd
        · obtain ⟨k, hk, rfl⟩ := List.mem_mapIdx.1 hd
          have hk' : k < q.length := by
            rw [hstate, List.length_map] at hk
            exact hk
          have hcmd : data.state[k] = q[k].command := by
            simp [hstate]
          rw [hcmd]
          exact (Knows.of_known hq (List.getElem?_eq_getElem hk')).mono

/-- **`applyLog` collects committed entries.** -/
lemma Served.applyLog (htr : Run H (s :: past)) (hs : Sound (s :: past) i (s.raft i))
    (h : Served (s :: past) (s.nodes i)) {rf : Raft n C (List C)}
    {batch : List (ApplyMsg C (List C))} (heq : (s.raft i).applyLog = some (rf, batch)) :
    Served (s' :: s :: past) { s.nodes i with raft := rf, batch := batch } := by
  obtain ⟨snap, cmds, lastApplied, rfl, rfl, hsnap, hcmds⟩ := Raft.applyLog_cases heq
  have hpos : position (s.raft i) ≤ max lastApplied (s.raft i).lastIncludedIndex := by
    unfold position
    rcases hcmds with ⟨-, -, rfl⟩ | ⟨-, -, rfl⟩
    · exact le_rfl
    · omega
  obtain ⟨q₀, hq₀, happ, hlen₀⟩ := h.applied
  refine ⟨⟨q₀, hq₀.mono, happ, hlen₀.trans hpos⟩, fun msg hmsg => ?_,
    fun d hd => (h.delivered d hd).mono⟩
  change Tells (s' :: s :: past) (max lastApplied (s.raft i).lastIncludedIndex) msg
  rcases List.mem_append.1 hmsg with hmsg | hmsg
  · -- the pending snapshot
    rcases hsnap with ⟨-, rfl⟩ | ⟨-, e, rfl⟩
    · cases hmsg
    · rw [List.mem_singleton.1 hmsg]
      cases hd : (s.raft i).snapshot with
      | none => trivial
      | some d =>
        have hcov := hs.covered_eq htr
        rw [hd] at hcov
        change _ = d.covered at hcov
        refine ⟨d.covered, ?_, hs.state d hd, ?_⟩
        · exact hcov ▸ Known.mono ⟨_, hs.included.2⟩
        · rw [← hcov, List.length_take]
          omega
  · obtain ⟨k, hk⟩ := List.mem_iff_getElem?.1 hmsg
    rcases hcmds with ⟨-, rfl, -⟩ | ⟨-, hcmds, rfl⟩
    · simp at hk
    · obtain ⟨hlen, hget⟩ := Raft.commandMsgs_spec hcmds
      obtain ⟨e, he, rfl⟩ := hget k msg hk
      obtain ⟨hlt, -⟩ := List.getElem?_eq_some_iff.1 hk
      obtain ⟨hdisc, he⟩ := Raft.entry_realIndex he
      have hd := htr.discard i
      set index := max (s.raft i).lastApplied (s.raft i).lastIncludedIndex with hindex
      have hlog : (s.raft i).logical[index + k]? = some e := by
        have := Store.logical_getElem? hs.covered (k := index + k) (by
          change (s.raft i).discardCount ≤ _
          omega)
        rw [Raft.store_logical] at this
        rw [this, ← he]
        change (s.raft i).logs[index + k + 1 - (s.raft i).discardCount]? = _
        congr 1
        omega
      have hknown : Known (s :: past) ((s.raft i).logical.take (s.raft i).committedIndex) :=
        ⟨_, hs.committed.2⟩
      refine ⟨?_, by omega⟩
      have := Knows.of_known hknown (k := index + k) (e := e) (by
        rw [List.getElem?_take_of_lt (by omega)]
        exact hlog)
      rw [show index + 1 + k = index + k + 1 by omega]
      exact this.mono

/-- The service restarts from the snapshot. -/
lemma Served.restart (htr : Run H (s :: past)) (hs : Sound (s :: past) i (s.raft i))
    (h : Served (s :: past) (s.nodes i)) : Served (s' :: s :: past) (s.nodes i).restart := by
  have hshape := htr.shapely.1 i
  have hstore : (s.nodes i).restart.raft.store = (s.raft i).store :=
    (Raft.store_make _).trans hshape.restart
  have hincl : (s.nodes i).restart.raft.lastIncludedIndex = (s.raft i).lastIncludedIndex :=
    congrArg Store.lastIncludedIndex hstore
  refine ⟨?_, fun msg hmsg => absurd hmsg List.not_mem_nil, fun d hd => (h.delivered d hd).mono⟩
  have hsnap : (s.nodes i).raft.persister.snapshot = (s.raft i).snapshot := hshape.stableSnapshot
  refine ⟨coveredBy (s.raft i).snapshot, ?_, ?_, ?_⟩
  · rw [← hs.covered_eq htr]
    exact Known.mono ⟨_, hs.included.2⟩
  · change (((s.nodes i).raft.persister.snapshot).map Snapshot.state).getD [] = _
    rw [hsnap]
    cases hd : (s.raft i).snapshot with
    | none => rfl
    | some d => exact hs.state d hd
  · have hlen : (coveredBy (s.raft i).snapshot).length = (s.raft i).discardCount := hs.covered.length
    rw [hlen, htr.discard i, ← hincl]
    exact le_max_right _ _

/-! ### Votes -/

/-- A vote says that the voter supports the log of the candidate. -/
lemma records_backed (htr : Run H (s' :: s :: past)) (hs : ∀ i, Sound (s :: past) i (s.raft i))
    (hcarries : ∀ p ∈ s.net, Carries (s :: past) p) : Records Backed s s' past where
  mono := by
    rintro v t c ⟨e, he, ⟨l, hl⟩ | hsup⟩
    · exact ⟨e, he.mono, Or.inl ⟨l, hl.mono⟩⟩
    · exact ⟨e, he.mono, Or.inr (hsup.mono htr)⟩
  stand := by
    intro i calls hl h
    obtain ⟨hl', -⟩ | ⟨-, last, -, heq, -⟩ := Raft.electionTimeout_cases h
    · exact absurd hl' hl
    · have hle : (s.raft i).stableTerm ≤ (s.raft i).currentTerm := (Run.ballot_ok htr.tail i).2.le
      have hterm : (s'.raft i).currentTerm = (s.raft i).currentTerm + 1 := by rw [heq]; rfl
      refine ⟨(s.raft i).logical, ⟨s', List.mem_cons_self, ?_, rfl, ?_⟩, Or.inr ?_⟩
      · rw [heq]
        rfl
      · rw [heq]
        rfl
      · refine (hs i).supports ?_ (by omega) (fun h => by omega) (Or.inr ⟨rfl, le_rfl⟩)
        rw [heq]
        rfl
  grant := by
    intro p args reply hp hr h hv hcand
    obtain ⟨-, rfl⟩ | ⟨hle, -, last, hlast, ⟨-, rfl⟩ | ⟨heq, -, hup⟩⟩ := Raft.requestVote_cases h
    · cases hv
    · cases hv
    · have hc := hcarries p hp
      unfold Carries at hc
      rw [hr] at hc
      obtain ⟨e, he, hindex, hterm⟩ := hc
      refine ⟨e, he.mono, ?_⟩
      by_cases hleader : ∃ l, LeaderLog (s :: past) args.term l
      · obtain ⟨l, hl⟩ := hleader
        exact Or.inl ⟨l, hl.mono⟩
      · have hsound := hs p.callee
        have hstable : (s.raft p.callee).stableTerm ≤ (s.raft p.callee).currentTerm :=
          (Run.ballot_ok htr.tail p.callee).2.le
        refine Or.inr (hsound.supports ?_ (hstable.trans hle) (fun _ => hleader) ?_)
        · rw [heq]
          rfl
        · unfold UpToDate
          rw [hsound.lastTerm_eq hlast, ← hterm, ← hindex, hsound.logical_length, Nat.add_comm]
          exact hup

/-! ### The invariant of a run -/

/-- Everything that holds of a run up to the state `s`. -/
structure Inv (s : Cluster n C) (past : List (Cluster n C)) : Prop where
  lawful : (ledger (s :: past)).Lawful LogEntry.term
  elections : Elections (s :: past)
  sound : ∀ i, Sound (s :: past) i (s.raft i)
  served : ∀ i, Served (s :: past) (s.nodes i)
  carries : ∀ p ∈ s.net, Carries (s :: past) p
  tally : Tally Backed s past

lemma not_leaderLog_init {t : ℕ} {l : List (LogEntry C)} :
    ¬ LeaderLog [(init : Cluster n C)] t l := by
  rintro ⟨s, hs, i, hl, -⟩
  rw [List.mem_singleton.1 hs] at hl
  cases hl

lemma inv_init : Inv (init : Cluster n C) [] := by
  have hack : ∀ {v : Fin n} {t : ℕ} {c : List (LogEntry C)},
      ¬ (ledger [(init : Cluster n C)]).Acked v t c := by
    rintro v t c ⟨a, ha, -⟩
    obtain ⟨l, hl, -⟩ := Ack.leader ha
    exact not_leaderLog_init hl
  have hheld : ∀ i : Fin n, Held [(init : Cluster n C)] (init.raft i) 0 :=
    fun i => ⟨Nat.zero_le _, Or.inl rfl⟩
  refine ⟨⟨?_, ?_, ?_, ?_⟩, ?_, fun i => ⟨⟨rfl, ?_⟩, ?_, ?_, ?_, ?_, hheld i, hheld i, hheld i, ?_,
    ?_⟩, fun i => ⟨⟨[], ⟨0, Or.inl rfl⟩, rfl, le_rfl⟩, ?_, ?_⟩, fun p hp => (by cases hp), tally_init⟩
  · exact fun h => absurd h not_leaderLog_init
  · exact fun h => absurd h not_leaderLog_init
  · exact fun h => absurd h not_leaderLog_init
  · exact fun h => absurd h not_leaderLog_init
  · exact fun t l h => absurd h not_leaderLog_init
  · intro e he
    cases he
    rfl
  · intro d hd
    cases hd
  · intro p hp hne
    exact absurd (List.prefix_nil.1 hp) hne
  · intro p hp
    rw [List.prefix_nil.1 hp]
    exact Nat.zero_le _
  · exact fun u c h => absurd h hack
  · intro h
    cases h
  · intro h
    cases h
  · intro msg hmsg
    cases hmsg
  · intro d hd
    cases hd

section Step

variable {node : Node n C} {got : Option (Packet n C)} {sent : List (Packet n C)}

/-- `lastIncludedIndex` and, short of a restart, `lastApplied` only grow. -/
lemma turn_counters (htr : Run H (s :: past)) (hturn : Turn H i (s.nodes i) node got sent) :
    (s.raft i).lastIncludedIndex ≤ node.raft.lastIncludedIndex ∧
      (node = (s.nodes i).restart ∨ (s.raft i).lastApplied ≤ node.raft.lastApplied) := by
  have hshape := htr.shapely.1 i
  have hstore : ∀ {b : Store C (List C)}, node.raft.store = b →
      node.raft.lastIncludedIndex = b.lastIncludedIndex := by
    rintro _ rfl
    rfl
  constructor
  · rcases hturn.store_cases with (h | h) | ⟨c, -, -, h⟩ | ⟨p, args, -, -, -, -, -, -, -, h⟩ |
      ⟨index, -, hlt, h⟩ | ⟨p, args, -, -, -, -, hlt, -, h⟩ | ⟨-, h⟩
    · exact (hstore h).ge
    · exact (hstore h).ge
    · exact (hstore h).ge
    · exact (hstore h).ge
    · exact hlt.le.trans (hstore h).ge
    · rw [hstore h]
      unfold Store.install
      split <;> exact hlt.le
    · rw [hstore h]
      exact (congrArg Store.lastIncludedIndex hshape.restart).ge
  · rcases hturn.raft with h | ⟨x, terms, h⟩ | h
    · exact Or.inr (congrArg Raft.lastApplied h).ge
    · exact Or.inr (Raft.handle_advance h).lastApplied_le
    · exact Or.inl h

/-- A snapshot, once there, is not lost. -/
lemma Included.le (htr : Run H (s :: past)) {index : ℕ} (h : Included (s :: past) i index) :
    index ≤ (s.raft i).lastIncludedIndex := by
  obtain ⟨s₁, hs₁, h⟩ := h
  refine h.trans (Trace.latest (R := fun s s' => (s.raft i).lastIncludedIndex ≤
    (s'.raft i).lastIncludedIndex) (fun _ => le_rfl) (fun _ _ _ => le_trans) ?_ htr hs₁)
  intro s past e s' htr hok hs
  obtain ⟨j, node, got, sent, hturn, hm⟩ := step_turn hok hs
  by_cases hij : i = j
  · subst hij
    rw [hm.raft_self]
    exact (turn_counters htr hturn).1
  · rw [hm.raft_other hij]

variable (htr : Run Raft.HoldsHidden (s' :: s :: past)) (hI : Inv s past)
  (hturn : Turn Raft.HoldsHidden i (s.nodes i) node got sent) (hm : s.Moved s' i node got sent)

include htr hI hturn hm

/-- **The server whose turn it is.** -/
lemma Inv.sound_turn : Sound (s' :: s :: past) i (s'.raft i) := by
  have h := hI.sound i
  have hL := hI.lawful
  have hself : s'.raft i = node.raft := hm.raft_self
  have hsame : node.raft = s.raft i → Sound (s' :: s :: past) i (s'.raft i) := fun heq => by
    rw [heq] at hself
    exact h.same htr (Or.inl (by rw [hself])) (by rw [hself]) fun hl => hself ▸ hl
  have hdown : ∀ {t}, node.raft = (s.raft i).stepDown t → Sound (s' :: s :: past) i (s'.raft i) := by
    intro t heq
    rw [heq] at hself
    refine h.same htr (Or.inr (by rw [hself]; rfl)) (by rw [hself]; rfl) fun hl => ?_
    rw [hself] at hl
    cases hl
  cases hturn with
  | @electionTimeout rf calls heq =>
    change s'.raft i = rf at hself
    subst hself
    refine h.same htr (Raft.store_electionTimeout heq) (Raft.progress_electionTimeout heq) ?_
    obtain ⟨hl, -⟩ | ⟨-, last, -, heq, -⟩ := Raft.electionTimeout_cases heq
    · exact fun _ => hl
    · intro hl
      rw [heq] at hl
      cases hl
  | heartbeatTimeout heq => exact hsame rfl
  | start heq =>
    obtain ⟨-, rfl, -⟩ | ⟨hl, rfl, -⟩ := Raft.start_cases heq
    · exact hsame rfl
    · exact h.start htr hl hself
  | @snapshot index h₁ h₂ =>
    rcases Nat.lt_or_ge (s.raft i).lastIncludedIndex index with hlt | hge
    · obtain ⟨q, hq, happ, hlen⟩ := (hI.served i).applied
      rw [happ, List.length_map] at h₂
      have hheld : Held (s :: past) (s.raft i) index :=
        (max_rec' (Held (s :: past) (s.raft i)) h.applied h.included).of_le (h₂.trans hlen)
      refine h.compact htr hlt hheld ?_ hself
      -- what the service has applied is what the server holds
      have hknown : Known (s :: past) ((s.raft i).logical.take index) := ⟨_, hheld.2⟩
      rw [hknown.eq hI.lawful (hq.take index) (by simp [hheld.1, h₂]), List.map_take, ← happ]
    · exact hsame (if_pos hge)
  | @applyLog rf batch hb heq =>
    change s'.raft i = rf at hself
    subst hself
    exact h.applyLog htr heq
  | applyMsg hb => exact hsame (Node.take_raft _ _)
  | crash => exact h.restart htr hself
  | lost => exact hsame rfl
  | @requestVote p args rf reply hp hr heq =>
    change s'.raft i = rf at hself
    subst hself
    have hb : Ballot.Step True False True _ _ := Raft.ballot_requestVote heq
    exact h.same htr (Or.inr (Raft.store_requestVote heq)) (Raft.progress_requestVote heq)
      fun hl => (hb.leader hl).1
  | @applyEntries p args rf reply hp hr hH heq =>
    change s'.raft i = rf at hself
    subst hself
    have hc := hI.carries p hm.mem_got
    unfold Carries at hc
    rw [hr] at hc
    obtain ⟨l, hl⟩ := hc
    let answer : Packet n C := { p with rpc := .applyEntriesReply args reply (s'.raft i).logical }
    exact (h.answer htr hL (p := answer) hp hl hH heq rfl).1
  | @installSnapshot p args rf reply hp hr heq =>
    change s'.raft i = rf at hself
    subst hself
    have hc := hI.carries p hm.mem_got
    unfold Carries at hc
    rw [hr] at hc
    let answer : Packet n C := { p with rpc := .installSnapshotReply args reply (s'.raft i).logical }
    exact (h.answerSnapshot htr hL (p := answer) hc.1 hc.2 heq rfl).1
  | @requestVoteReply p args reply log hp hr he =>
    obtain heq | ⟨-, heq⟩ | ⟨-, -, heq | ⟨-, -, heq⟩⟩ :=
      Raft.requestVoteReply_cases (s.raft i) args reply
    · exact hsame heq
    · exact hdown heq
    · have hself' : s'.raft i = (s.raft i).countVote args.term := hself.trans heq
      exact h.same htr (Or.inl (by rw [hself']; rfl)) (by rw [hself']; rfl) fun hl => by
        rwa [hself'] at hl
    · exact h.elected htr (hself.trans heq)
  | @applyEntriesReply p args reply log rf hp hr he heq =>
    obtain rfl | ⟨-, rfl⟩ | ⟨index, rfl⟩ | ⟨hle, hsuc, -, -, heq'⟩ := Raft.sendApplyEntriesTo_cases heq
    · exact hsame rfl
    · exact hdown rfl
    · change s'.raft i = { s.raft i with
        nextIndex := Function.update (s.raft i).nextIndex p.callee index } at hself
      exact h.same htr (Or.inl (by rw [hself]; rfl)) (by rw [hself]; rfl) fun hl => by
        rwa [hself] at hl
    · change s'.raft i = rf at hself
      subst hself
      subst hp
      have hc := hI.carries p hm.mem_got
      unfold Carries at hc
      rw [hr] at hc
      obtain ⟨hterm, l, hl, hack, -⟩ := hc hsuc
      obtain ⟨hle', hlead⟩ := Run.leads htr.tail hm.mem_got (t := args.term) (by rw [hr]; rfl) he
      have hargs : args.term = (s.raft p.caller).currentTerm := le_antisymm hle' (hterm ▸ hle)
      rw [hl.length] at heq'
      exact h.commit htr hL (hlead hargs) (hargs ▸ hl.leader) (hargs ▸ hack) heq'
  | @installSnapshotReply p args reply log hp hr he =>
    subst hp
    obtain heq | ⟨-, heq⟩ | ⟨-, -, heq⟩ :=
      Raft.sendInstallSnapshotTo_cases (s.raft p.caller) p.callee args reply
    · exact hsame heq
    · exact hdown heq
    · have hc := hI.carries p hm.mem_got
      unfold Carries at hc
      rw [hr] at hc
      exact h.snapshotReply htr (hc.2.1.le htr.tail) (hself.trans heq)

/-- **The service above it.** -/
lemma Inv.served_turn : Served (s' :: s :: past) node := by
  have h := hI.served i
  have hcount := turn_counters htr.tail hturn
  have hkeep : node ≠ (s.nodes i).restart → node.applied = (s.nodes i).applied →
      node.batch = (s.nodes i).batch → node.delivered = (s.nodes i).delivered →
      Served (s' :: s :: past) node := fun hne h₁ h₂ h₃ =>
    h.keep h₁ h₂ h₃ (max_le_max (hcount.2.resolve_left hne) hcount.1)
  have hepoch : node.epoch = (s.nodes i).epoch → node ≠ (s.nodes i).restart := by
    rintro he rfl
    exact absurd he (Nat.succ_ne_self _)
  cases hturn with
  | applyLog hb heq => exact h.applyLog htr.tail (hI.sound i) heq
  | applyMsg hb => exact h.take hI.lawful hb
  | crash => exact h.restart htr.tail (hI.sound i)
  | _ => exact hkeep (hepoch rfl) rfl rfl rfl

/-- **The packets it sends.** -/
lemma Inv.carries_turn : ∀ p ∈ sent, Carries (s' :: s :: past) p := by
  intro p hp
  have hself : s'.raft i = node.raft := hm.raft_self
  have hsound := hI.sound_turn htr hturn hm
  have hself' : (s.nodes i).raft = s.raft i := rfl
  rcases hturn.sent_cases hp with ⟨last, hc, hcaller, hlast, hr⟩ | ⟨hl, hcaller, -, -, hb⟩ |
    ⟨q, args, reply, -, -, rfl⟩ | ⟨q, args, reply, rfl, hq, hr, hH, heq, hpq⟩ |
    ⟨q, args, reply, rfl, hq, hr, heq, hpq⟩
  · rw [← hself] at hc hlast hr
    exact hsound.candidate_request hc hlast hcaller hr
  · rw [← hself] at hl hb
    exact hsound.heartBeat htr hl hcaller hb
  · trivial
  · have hc := hI.carries q hm.mem_got
    unfold Carries at hc
    rw [hr] at hc
    obtain ⟨l, hl⟩ := hc
    rw [← hself, hself'] at heq
    exact ((hI.sound i).answer htr hI.lawful (by rw [hpq]; exact hq) hl hH heq
      (by rw [hpq, hself])).2
  · have hc := hI.carries q hm.mem_got
    unfold Carries at hc
    rw [hr] at hc
    rw [← hself, hself'] at heq
    exact ((hI.sound i).answerSnapshot htr hI.lawful hc.1 (by rw [hpq]; exact hc.2) heq
      (by rw [hpq, hself])).2

end Step

/-- **Every step keeps the invariant.** -/
theorem Inv.step (htr : Run Raft.HoldsHidden (s' :: s :: past)) (hI : Inv s past) :
    Inv s' (s :: past) := by
  obtain ⟨e, hok, hs⟩ := htr.last
  obtain ⟨i, node, got, sent, hturn, hm⟩ := step_turn hok hs
  have hsound : ∀ j, Sound (s' :: s :: past) j (s'.raft j) := by
    intro j
    by_cases hij : j = i
    · subst hij
      exact hI.sound_turn htr hturn hm
    · have hother : s'.raft j = s.raft j := hm.raft_other hij
      exact (hI.sound j).same htr (Or.inl (by rw [hother])) (by rw [hother]) fun hl => hother ▸ hl
  have helect := hI.elections.step htr hI.tally hI.sound hsound
  refine ⟨lawful_step htr hI.lawful helect hsound, helect, hsound, ?_, fun p hp => ?_,
    hI.tally.step (records_backed htr hI.sound hI.carries) htr⟩
  · exact hm.forall_nodes (P := fun _ node => Served (s' :: s :: past) node)
      (hI.served_turn htr hturn hm) fun j _ => (hI.served j).keep rfl rfl rfl le_rfl
  · rcases hm.mem_net hp with hp | hp
    · exact (hI.carries p hp).mono
    · exact hI.carries_turn htr hturn hm p hp

/-- The invariant holds along every run in which `HoldsHidden` is heeded. -/
theorem Run.inv (htr : Run Raft.HoldsHidden (s :: past)) : Inv s past := by
  refine Trace.invariant (P := Inv) inv_init ?_ htr
  intro s past e s' htr hI hok hs
  exact hI.step (.step e htr hok hs)

/-! ### State machine safety -/

/-- **State machine safety.**  In every run in which the condition is met whenever an `ApplyEntries`
is delivered, any two servers that were ever delivered a command at the same index, by itself or in
a snapshot, were delivered the same one. -/
theorem state_machine_safety {s : Cluster n C}
    (h : Reachable step (Heeds Raft.HoldsHidden) init s) {a b : Fin n} {index : ℕ} {c d : C}
    (hc : (index, c) ∈ (s.nodes a).delivered) (hd : (index, d) ∈ (s.nodes b).delivered) :
    c = d := by
  obtain ⟨past, htr⟩ := h
  have hI : Inv s past := Run.inv htr
  obtain ⟨-, q, e, ⟨t, hq⟩, he, rfl⟩ := (hI.served a).delivered _ hc
  obtain ⟨-, q', e', ⟨t', hq'⟩, he', rfl⟩ := (hI.served b).delivered _ hd
  have heq : ∀ {q q' : List (LogEntry C)} {k : ℕ} {e e' : LogEntry C}, q <+: q' → q[k]? = some e →
      q'[k]? = some e' → e = e' := by
    rintro q _ k e e' ⟨rest, rfl⟩ he he'
    rw [List.getElem?_append_left (List.getElem?_eq_some_iff.1 he).1, he] at he'
    exact Option.some.inj he'
  rcases hI.lawful.safe_comparable hq hq' with hpre | hpre
  · rw [heq hpre he he']
  · rw [heq hpre he' he]

/-- Server `0` of three commits the command `10` with server `2` and tells server `1`; both deliver
it. -/
theorem state_machine_safety_first_command : ∃ s : Cluster 3 ℕ,
    Reachable step (Heeds Raft.HoldsHidden) init s ∧ (1, 10) ∈ (s.nodes 0).delivered ∧
    (s.nodes 1).delivered ≠ [] ∧ ∀ d, (1, d) ∈ (s.nodes 1).delivered → 10 = d := by
  have hrun : (run (guarded step (Heeds Raft.HoldsHidden)) (init : Cluster 3 ℕ)
      [.electionTimeout 0, .deliver 0, .deliver 1, .start 0 10, .deliver 2, .deliver 2,
        .applyLog 0, .applyMsg 0, .deliver 1, .deliver 1, .heartbeatTimeout 0, .deliver 1,
        .applyLog 1, .applyMsg 1]).map
        (fun s => ((s.nodes 0).delivered, (s.nodes 1).delivered)) = some ([(1, 10)], [(1, 10)]) := by
    decide +kernel
  obtain ⟨s, hs, heq⟩ := Option.map_eq_some_iff.1 hrun
  obtain ⟨h₀, h₁⟩ := Prod.mk.inj heq
  have hreach := Reachable.init.run_guarded hs
  have hc : (1, 10) ∈ (s.nodes 0).delivered := h₀ ▸ List.mem_singleton_self _
  refine ⟨s, hreach, hc, by simp [h₁], fun d hd => ?_⟩
  exact state_machine_safety hreach hc hd

/-- Server `1` takes a snapshot at index `1`.  Its answers up to there having been lost, server `0`
sends it the entries from index `1` on again, now together with `20`.  The snapshot hides the first
of them, server `1` answers `Success` without storing the second, and server `0` commits it.  Server
`1` is elected, and commits `30` in its place. -/
def hiddenEntries : List (Event 3 ℕ) :=
  [.electionTimeout 0, .deliver 0, .deliver 1, .drop 0, .start 0 10, .deliver 0, .deliver 0,
    .deliver 1, .drop 0, .heartbeatTimeout 0, .deliver 0, .drop 0, .drop 0, .applyLog 1,
    .applyMsg 1, .snapshot 1 1, .start 0 20, .deliver 0, .deliver 1, .drop 0, .applyLog 0,
    .applyMsg 0, .applyMsg 0, .electionTimeout 1, .deliver 1, .deliver 1, .drop 0, .start 1 30,
    .deliver 1, .deliver 1, .applyLog 1, .applyMsg 1]

/-- **Without the condition state machine safety fails.** -/
theorem hiddenEntries_not_safe : ∃ s : Cluster 3 ℕ, Reachable step anyStep init s ∧
    (2, 20) ∈ (s.nodes 0).delivered ∧ (2, 30) ∈ (s.nodes 1).delivered := by
  have hrun : (run step (init : Cluster 3 ℕ) hiddenEntries).map
      (fun s => ((s.nodes 0).delivered, (s.nodes 1).delivered)) =
        some ([(1, 10), (2, 20)], [(1, 10), (2, 30)]) := by
    decide +kernel
  obtain ⟨s, hs, heq⟩ := Option.map_eq_some_iff.1 hrun
  obtain ⟨h₀, h₁⟩ := Prod.mk.inj heq
  exact ⟨s, Reachable.init.run hs, by simp [h₀], by simp [h₁]⟩

/-! ### Replication bookkeeping -/

end Cluster

namespace Raft

variable {σ : Type} {rf rf' : Raft n C σ}

/-- The value that a reply makes its receiver assign to `matchIndex[server]`, if it does. -/
def matchSet (rf : Raft n C σ) (server : Fin n) : Rpc n C σ → Option ℕ
  | .applyEntriesReply args reply _ =>
    if rf.currentTerm ≤ reply.term ∧ reply.success = true ∧ args.entries ≠ [] ∧
        args.prevLogIndex + 1 = rf.nextIndex server then
      some (args.prevLogIndex + args.entries.length)
    else none
  | .installSnapshotReply args reply _ =>
    if reply.term = rf.currentTerm ∧ rf.matchIndex server ≤ args.lastIncludedIndex then
      some args.lastIncludedIndex
    else none
  | _ => none

/-- `sendApplyEntriesTo` assigns what `matchSet` says. -/
lemma matchIndex_sendApplyEntriesTo {server : Fin n} {args : ApplyEntriesArgs n C}
    {reply : ApplyEntriesReply} (h : rf.sendApplyEntriesTo server args reply = some rf')
    (log : List (LogEntry C)) : rf'.matchIndex = Function.update rf.matchIndex server
      ((rf.matchSet server (.applyEntriesReply args reply log)).getD (rf.matchIndex server)) := by
  dsimp only [sendApplyEntriesTo, matchSet] at h ⊢
  split_ifs at h with h₁ h₂ h₃ h₄ h₅
  · cases h
    rw [if_neg (fun hc => not_lt.2 hc.1 h₁), Option.getD_none, Function.update_eq_self]
  · cases h
    rw [if_neg (by simp [h₂]), Option.getD_none, Function.update_eq_self]
    rfl
  · cases h
    rw [if_neg (by simp [h₂]), Option.getD_none, Function.update_eq_self]
  · obtain ⟨index, -, rfl⟩ := Option.map_eq_some_iff.1 h
    rw [if_neg (by simp [h₂]), Option.getD_none, Function.update_eq_self]
  · have hs : reply.success = true := by simpa using h₂
    rw [if_pos ⟨not_lt.1 h₁, hs, h₅⟩, Option.getD_some]
    obtain ⟨index, rfl, -⟩ := updateCommittedIndex_cases h
    change Function.update rf.matchIndex server _ = _
    congr 1
    omega
  · cases h
    rw [if_neg (fun hc => h₅ hc.2.2), Option.getD_none, Function.update_eq_self]

/-- `sendInstallSnapshotTo` assigns what `matchSet` says. -/
lemma matchIndex_sendInstallSnapshotTo (rf : Raft n C σ) (server : Fin n)
    (args : InstallSnapshotArgs n C σ) (reply : InstallSnapshotReply) (log : List (LogEntry C)) :
    (rf.sendInstallSnapshotTo server args reply).matchIndex = Function.update rf.matchIndex server
      ((rf.matchSet server (.installSnapshotReply args reply log)).getD (rf.matchIndex server)) := by
  dsimp only [sendInstallSnapshotTo, matchSet]
  by_cases h : reply.term = rf.currentTerm ∧ rf.matchIndex server ≤ args.lastIncludedIndex
  · rw [if_pos h, Option.getD_some, if_neg h.1.not_lt, if_neg h.1.not_gt, if_pos h.2]
  · rw [if_neg h, Option.getD_none, Function.update_eq_self]
    split_ifs with h₁ h₂ h₃
    · rfl
    · rfl
    · exact absurd ⟨le_antisymm (not_lt.1 h₂) (not_lt.1 h₁), h₃⟩ h
    · rfl

end Raft

namespace Cluster

variable {s : Cluster n C}

/-- The logical log that the sender of a reply had when it replied. -/
def replyLog : Rpc n C (List C) → List (LogEntry C)
  | .requestVoteReply _ _ log => log
  | .applyEntriesReply _ _ log => log
  | .installSnapshotReply _ _ log => log
  | _ => []

/-- A step that processes the reply to an `InstallSnapshot` in the term of the reply does so in the
term of the request. -/
def Timely (s : Cluster n C) (e : Event n C) : Prop :=
  ∀ k p args reply log, e = .deliver k → s.net[k]? = some p →
    p.rpc = .installSnapshotReply args reply log →
    reply.term = (s.raft p.caller).currentTerm → args.term = reply.term

/-- **Replication bookkeeping is sound.**  In every run in which `HoldsHidden` is heeded, when a
leader processes a reply and assigns `m` to `matchIndex` of the server that replied, that server had,
when it replied, the leader's log up to `m`; for replies to `InstallSnapshot` provided the request
was of the leader's present term. -/
theorem replication_sound (h : Reachable step (Heeds Raft.HoldsHidden) init s) {k : ℕ}
    {p : Packet n C} (hp : s.net[k]? = some p) (he : p.epoch = (s.nodes p.caller).epoch)
    (hl : (s.raft p.caller).identity = .leader) (htimely : s.Timely (.deliver k)) {m : ℕ}
    (hm : (s.raft p.caller).matchSet p.callee p.rpc = some m) :
    m ≤ (replyLog p.rpc).length ∧ m ≤ (s.raft p.caller).logical.length ∧
      (replyLog p.rpc).take m = (s.raft p.caller).logical.take m := by
  obtain ⟨past, htr⟩ := h
  have hI : Inv s past := Run.inv htr
  have hmem : p ∈ s.net := List.mem_of_getElem? hp
  have hlogs := ((hI.sound p.caller).leader hl).1
  -- what both have up to its length
  have hboth : ∀ {q log : List (LogEntry C)}, q <+: log → q <+: (s.raft p.caller).logical →
      q.length ≤ log.length ∧ q.length ≤ (s.raft p.caller).logical.length ∧
        log.take q.length = (s.raft p.caller).logical.take q.length := fun h h' =>
    ⟨h.length_le, h'.length_le,
      (List.prefix_iff_eq_take.1 h).symm.trans (List.prefix_iff_eq_take.1 h')⟩
  have hc := hI.carries p hmem
  unfold Carries at hc
  cases hr : p.rpc with
  | applyEntriesReply args reply log =>
    rw [hr] at hc hm
    dsimp only [Raft.matchSet] at hm
    split at hm
    · rename_i hset
      cases hm
      obtain ⟨hterm, l, hargs, -, hlog⟩ := hc hset.2.1
      have hle := (Run.leads htr hmem (t := args.term) (by rw [hr]; rfl) he).1
      have heq : args.term = (s.raft p.caller).currentTerm := le_antisymm hle (hterm ▸ hset.1)
      rw [hargs.length]
      exact hboth hlog (hlogs l (heq ▸ hargs.leader))
    · cases hm
  | installSnapshotReply args reply log =>
    rw [hr] at hc hm
    dsimp only [Raft.matchSet] at hm
    split at hm
    · rename_i hset
      cases hm
      have hterm := htimely k p args reply log rfl hp hr hset.1
      obtain ⟨m, hm, hpre⟩ := hc.1.leader
      rw [← hc.1.length]
      exact hboth (hc.2.2 hterm.symm) (hpre.trans (hlogs m ((hterm.trans hset.1) ▸ hm)))
    · cases hm
  | requestVote args => simp [hr, Raft.matchSet] at hm
  | requestVoteReply args reply log => simp [hr, Raft.matchSet] at hm
  | applyEntries args => simp [hr, Raft.matchSet] at hm
  | installSnapshot args => simp [hr, Raft.matchSet] at hm

/-- What a leader is about to assign to `matchIndex`, what the follower had and what it has itself. -/
structure Bookkeeping (C : Type) where
  leads : Bool
  assigned : Option ℕ
  follower : List (LogEntry C)
  leader : List (LogEntry C)
  deriving DecidableEq

/-- The bookkeeping of the step that processes the reply in place `k`. -/
def bookkeeping (s : Cluster n C) (k : ℕ) : Option (Bookkeeping C) :=
  s.net[k]?.map fun p =>
    { leads := p.epoch = (s.nodes p.caller).epoch ∧ (s.raft p.caller).identity = .leader
      assigned := (s.raft p.caller).matchSet p.callee p.rpc
      follower := replyLog p.rpc
      leader := (s.raft p.caller).logical }

lemma bookkeeping_eq {k m : ℕ} {log l : List (LogEntry C)}
    (h : s.bookkeeping k = some ⟨true, some m, log, l⟩) : ∃ p, s.net[k]? = some p ∧
      p.epoch = (s.nodes p.caller).epoch ∧ (s.raft p.caller).identity = .leader ∧
      (s.raft p.caller).matchSet p.callee p.rpc = some m ∧ replyLog p.rpc = log ∧
      (s.raft p.caller).logical = l := by
  obtain ⟨p, hp, heq⟩ := Option.map_eq_some_iff.1 h
  simp only [Bookkeeping.mk.injEq, decide_eq_true_eq] at heq
  obtain ⟨⟨he, hl⟩, hm, hlog, hlogical⟩ := heq
  exact ⟨p, hp, he, hl, hm, hlog, hlogical⟩

/-- Server `2` has stored the command `10` of server `0`, and answers. -/
theorem replication_sound_first_command : ∃ (s : Cluster 3 ℕ) (p : Packet 3 ℕ),
    Reachable step (Heeds Raft.HoldsHidden) init s ∧ s.net[2]? = some p ∧
    (s.raft p.caller).matchSet p.callee p.rpc = some 1 ∧ 1 ≤ (replyLog p.rpc).length ∧
    1 ≤ (s.raft p.caller).logical.length ∧
    (replyLog p.rpc).take 1 = (s.raft p.caller).logical.take 1 := by
  have hrun : (run (guarded step (Heeds Raft.HoldsHidden)) (init : Cluster 3 ℕ)
      [.electionTimeout 0, .deliver 0, .deliver 1, .start 0 10, .deliver 2]).map
        (fun s => (s.bookkeeping 2, s.net[2]?.map Packet.rpc)) =
        some (some ⟨true, some 1, [⟨10, 1⟩], [⟨10, 1⟩]⟩, some (.applyEntriesReply
          ⟨1, 0, 0, 0, [⟨10, 1⟩], 0⟩ { term := 1, success := true } [⟨10, 1⟩])) := by
    decide +kernel
  obtain ⟨s, hs, heq⟩ := Option.map_eq_some_iff.1 hrun
  obtain ⟨hk, hrpc⟩ := Prod.mk.inj heq
  obtain ⟨p, hp, he, hl, hm, -, -⟩ := bookkeeping_eq hk
  have hreach := Reachable.init.run_guarded hs
  refine ⟨s, p, hreach, hp, hm, replication_sound hreach hp he hl ?_ hm⟩
  intro k q args reply log hk hq hr
  cases hk
  rw [hq] at hrpc
  cases hr.symm.trans (Option.some.inj hrpc)

/-- The term of server `0` ends while its `InstallSnapshot` is on the way to server `1`.  It is
elected again, and server `1`, which has voted for it, turns the old request away with a reply of the
new term. -/
def staleSnapshot : List (Event 3 ℕ) :=
  [.electionTimeout 0, .deliver 0, .deliver 1, .drop 0, .start 0 10, .drop 0, .deliver 0, .deliver 0,
    .applyLog 0, .applyMsg 0, .snapshot 0 1, .heartbeatTimeout 0, .drop 1, .electionTimeout 2,
    .deliver 1, .drop 1, .drop 1, .electionTimeout 0, .deliver 1, .deliver 2, .deliver 0]

/-- **Without the conditions the bookkeeping is wrong**: in the run `hiddenEntries` before the answer
of server `1` is processed, and in the run `staleSnapshot`, in which `HoldsHidden` is heeded. -/
theorem bookkeeping_not_sound :
    (∃ (s : Cluster 3 ℕ) (p : Packet 3 ℕ) (k m : ℕ), Reachable step anyStep init s ∧
      s.net[k]? = some p ∧ p.epoch = (s.nodes p.caller).epoch ∧
      (s.raft p.caller).identity = .leader ∧ (s.raft p.caller).matchSet p.callee p.rpc = some m ∧
      (replyLog p.rpc).take m ≠ (s.raft p.caller).logical.take m) ∧
    ∃ (s : Cluster 3 ℕ) (p : Packet 3 ℕ) (k m : ℕ),
      Reachable step (Heeds Raft.HoldsHidden) init s ∧
      s.net[k]? = some p ∧ p.epoch = (s.nodes p.caller).epoch ∧
      (s.raft p.caller).identity = .leader ∧ (s.raft p.caller).matchSet p.callee p.rpc = some m ∧
      (replyLog p.rpc).take m ≠ (s.raft p.caller).logical.take m := by
  constructor
  · have hrun : (run step (init : Cluster 3 ℕ) (hiddenEntries.take 18)).map (bookkeeping · 1) =
        some (some ⟨true, some 2, [⟨10, 1⟩], [⟨10, 1⟩, ⟨20, 1⟩]⟩) := by
      decide +kernel
    obtain ⟨s, hs, hk⟩ := Option.map_eq_some_iff.1 hrun
    obtain ⟨p, hp, he, hl, hm, hlog, hlogical⟩ := bookkeeping_eq hk
    exact ⟨s, p, 1, 2, Reachable.init.run hs, hp, he, hl, hm, by rw [hlog, hlogical]; decide⟩
  · have hrun : (run (guarded step (Heeds Raft.HoldsHidden)) (init : Cluster 3 ℕ)
        staleSnapshot).map (bookkeeping · 1) = some (some ⟨true, some 1, [], [⟨10, 1⟩]⟩) := by
      decide +kernel
    obtain ⟨s, hs, hk⟩ := Option.map_eq_some_iff.1 hrun
    obtain ⟨p, hp, he, hl, hm, hlog, hlogical⟩ := bookkeeping_eq hk
    exact ⟨s, p, 1, 1, Reachable.init.run_guarded hs, hp, he, hl, hm, by rw [hlog, hlogical]; decide⟩

end Cluster

end RaftLabs
