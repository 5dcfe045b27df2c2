import RaftLabs.Raft.Election

/-!
# Log matching

Servers trim their logs independently, overwrite them, and replace them by snapshots.  What all of
them keep is that every entry stands on an entry of the same term as when its leader created it.

`At logs d index e prev` says that a log that starts at index `d` has entry `e` at `index`, on top
of an entry of term `prev`.  `Made` records the entries that leaders have had of their own term, and
is functional in index and term (`Made.unique`), since a term has one leader and a leader only
appends.  Everything in a log or in a message was made (`Run.matched`), and two logs that agree on a
term at an index therefore agree all the way down: `log_matching`.
-/

set_option linter.unusedSectionVars false

namespace RaftLabs

open Lib

variable {n : ℕ} {C σ : Type} [Inhabited C]

/-- The log `logs`, whose slot `0` is index `d`, has `e` at `index` on an entry of term `prev`. -/
def At (logs : List (LogEntry C)) (d index : ℕ) (e : LogEntry C) (prev : ℕ) : Prop :=
  ∃ k p, logs[k]? = some p ∧ logs[k + 1]? = some e ∧ p.term = prev ∧ index = d + k + 1

section At

variable {logs es : List (LogEntry C)} {d index prev prev' : ℕ} {e e' : LogEntry C}

lemma At.unique (h : At logs d index e prev) (h' : At logs d index e' prev') :
    e = e' ∧ prev = prev' := by
  obtain ⟨k, p, hp, he, rfl, hk⟩ := h
  obtain ⟨k', p', hp', he', rfl, hk'⟩ := h'
  obtain rfl : k = k' := by omega
  rw [hp] at hp'
  rw [he] at he'
  cases hp'
  cases he'
  exact ⟨rfl, rfl⟩

lemma At.lt (h : At logs d index e prev) : d < index ∧ index < d + logs.length := by
  obtain ⟨k, p, -, he, -, rfl⟩ := h
  obtain ⟨hk, -⟩ := List.getElem?_eq_some_iff.1 he
  omega

lemma At.of_drop {m : ℕ} (h : At (logs.drop m) (d + m) index e prev) : At logs d index e prev := by
  obtain ⟨k, p, hp, he, ht, rfl⟩ := h
  rw [List.getElem?_drop] at hp he
  exact ⟨m + k, p, hp, he, ht, by omega⟩

lemma At.drop {m : ℕ} (h : At logs d index e prev) (hm : d + m < index) :
    At (logs.drop m) (d + m) index e prev := by
  obtain ⟨k, p, hp, he, ht, rfl⟩ := h
  refine ⟨k - m, p, ?_, ?_, ht, by omega⟩
  · rw [List.getElem?_drop, show m + (k - m) = k by omega]
    exact hp
  · rw [List.getElem?_drop, show m + (k - m + 1) = k + 1 by omega]
    exact he

lemma At.append_left (h : At logs d index e prev) (es : List (LogEntry C)) :
    At (logs ++ es) d index e prev := by
  obtain ⟨k, p, hp, he, ht, rfl⟩ := h
  obtain ⟨hk, -⟩ := List.getElem?_eq_some_iff.1 he
  exact ⟨k, p, by rwa [List.getElem?_append_left (by omega)],
    by rwa [List.getElem?_append_left hk], ht, rfl⟩

lemma At.of_take {m : ℕ} (h : At (logs.take m) d index e prev) : At logs d index e prev := by
  have := h.append_left (logs.drop m)
  rwa [List.take_append_drop] at this

/-- In two logs put together, an entry is in the first, in the second on the last entry of the
first, or in the second. -/
lemma At.of_append (h : At (logs ++ es) d index e prev) {p : LogEntry C}
    (hp : logs.getLast? = some p) :
    At logs d index e prev ∨ At (p :: es) (d + logs.length - 1) index e prev := by
  obtain ⟨k, q, hq, he, rfl, rfl⟩ := h
  have hlen : 0 < logs.length := List.length_pos_iff.2 (by rintro rfl; simp at hp)
  by_cases hk : k + 1 < logs.length
  · rw [List.getElem?_append_left (by omega)] at hq
    rw [List.getElem?_append_left hk] at he
    exact Or.inl ⟨k, q, hq, he, rfl, rfl⟩
  · right
    refine ⟨k + 1 - logs.length, q, ?_, ?_, rfl, by omega⟩
    · rcases Nat.lt_or_ge k logs.length with hk' | hk'
      · have hk₀ : k + 1 - logs.length = 0 := by omega
        rw [List.getElem?_append_left hk'] at hq
        rw [List.getLast?_eq_getElem?, show logs.length - 1 = k by omega, hq] at hp
        rw [hk₀]
        exact hp.symm
      · rw [List.getElem?_append_right hk'] at hq
        rw [show k + 1 - logs.length = (k - logs.length) + 1 by omega]
        exact hq
    · rw [List.getElem?_append_right (by omega)] at he
      rw [List.getElem?_cons_succ]
      exact he

/-- Only the term of slot `0` matters. -/
lemma At.slot {p p' : LogEntry C} (hp : p.term = p'.term) (h : At (p :: es) d index e prev) :
    At (p' :: es) d index e prev := by
  obtain ⟨k, q, hq, he, rfl, rfl⟩ := h
  cases k with
  | zero =>
    cases hq
    exact ⟨0, p', rfl, he, hp.symm, rfl⟩
  | succ k => exact ⟨k + 1, q, hq, he, rfl, rfl⟩

/-- Where entries and log agree, the last entry is of the term the log has there. -/
lemma agree_seam {start : ℕ} (hs : 0 < start) (hagree : Raft.Agree logs start es) {q x : LogEntry C}
    (hlen : start ≤ logs.length) (hq : (logs.take start ++ es).getLast? = some q)
    (hx : logs[start + es.length - 1]? = some x) : q.term = x.term := by
  rcases List.eq_nil_or_concat es with rfl | ⟨es, e, rfl⟩
  · rw [List.append_nil, List.getLast?_eq_getElem?, List.length_take, min_eq_left hlen,
      List.getElem?_take_of_lt (by omega)] at hq
    rw [List.length_nil, Nat.add_zero, hq] at hx
    cases hx
    rfl
  · rw [List.concat_eq_append] at hq hx hagree
    rw [← List.append_assoc, List.getLast?_concat] at hq
    cases hq
    refine (hagree es.length x q ?_ (by simp)).symm
    rwa [List.length_append, List.length_singleton, ← Nat.add_assoc, Nat.add_sub_cancel] at hx

/-- What follows the entries stands on an entry of the same term as before. -/
lemma At.of_splice {start : ℕ} (hs : 0 < start) (hlen : start ≤ logs.length)
    (hagree : Raft.Agree logs start es)
    (h : At (logs.take start ++ es ++ logs.drop (start + es.length)) d index e prev) :
    At (logs.take start ++ es) d index e prev ∨ At logs d index e prev := by
  have hflen : (logs.take start ++ es).length = start + es.length := by
    rw [List.length_append, List.length_take, min_eq_left hlen]
  obtain ⟨q, hq⟩ : ∃ q, (logs.take start ++ es).getLast? = some q := by
    refine Option.isSome_iff_exists.1 (List.getLast?_isSome.2 fun hnil => ?_)
    rw [hnil, List.length_nil] at hflen
    omega
  rcases h.of_append hq with h | h
  · exact Or.inl h
  · right
    rw [hflen] at h
    have hm : start + es.length - 1 < logs.length := by
      have := h.lt
      rw [List.length_cons, List.length_drop] at this
      omega
    have hx : logs[start + es.length - 1]? = some logs[start + es.length - 1] :=
      List.getElem?_eq_getElem hm
    have hcons : logs[start + es.length - 1] :: logs.drop (start + es.length) =
        logs.drop (start + es.length - 1) := by
      rw [List.drop_eq_getElem_cons hm, show start + es.length - 1 + 1 = start + es.length by omega]
    have h' := h.slot (agree_seam hs hagree hlen hq hx)
    rw [hcons, show d + (start + es.length) - 1 = d + (start + es.length - 1) by omega] at h'
    exact h'.of_drop

end At

/-! ### What the code does to the places of entries -/

namespace Store

variable {b : Store C σ} {index prev k : ℕ} {e : LogEntry C}

lemma at_discard (hk : b.discardCount ≤ k)
    (h : At (b.discard k).logs (b.discard k).discardCount index e prev) :
    At b.logs b.discardCount index e prev := by
  change At (b.logs.drop _) k index e prev at h
  by_cases hlen : k - b.discardCount ≤ b.logs.length - 1
  · rw [min_eq_right hlen] at h
    refine At.of_drop (m := k - b.discardCount) ?_
    rwa [show b.discardCount + (k - b.discardCount) = k by omega]
  · have := h.lt
    rw [List.length_drop] at this
    omega

lemma at_discard_of_lt (hk : b.discardCount ≤ k) (h : At b.logs b.discardCount index e prev)
    (hlt : k < index) : At (b.discard k).logs (b.discard k).discardCount index e prev := by
  have hlen : k - b.discardCount ≤ b.logs.length - 1 := by
    have := h.lt
    omega
  change At (b.logs.drop _) k index e prev
  rw [min_eq_right hlen]
  have := h.drop (m := k - b.discardCount) (by omega)
  rwa [show b.discardCount + (k - b.discardCount) = k by omega] at this

lemma at_append {e' : LogEntry C} (hne : b.logs ≠ [])
    (h : At (b.append e').logs b.discardCount index e prev) :
    At b.logs b.discardCount index e prev ∨ e = e' := by
  obtain ⟨p, hp⟩ := Option.isSome_iff_exists.1 (List.getLast?_isSome.2 hne)
  rcases At.of_append h hp with h | ⟨k, q, -, he, -, -⟩
  · exact Or.inl h
  · right
    rw [List.getElem?_cons_succ] at he
    have := List.mem_of_getElem? he
    simpa using this

/-- The entries after `ApplyEntries` stand where they stood in the log or in the message. -/
lemma at_splice {args : ApplyEntriesArgs n C} {p : LogEntry C}
    (hle : b.discardCount ≤ args.prevLogIndex)
    (hp : b.logs[args.prevLogIndex - b.discardCount]? = some p) (hterm : p.term = args.prevLogTerm)
    (h : At (b.splice args).logs b.discardCount index e prev) :
    At b.logs b.discardCount index e prev ∨
      At (⟨default, args.prevLogTerm⟩ :: args.entries) args.prevLogIndex index e prev := by
  obtain ⟨hlen, -⟩ := List.getElem?_eq_some_iff.1 hp
  have hstart : args.prevLogIndex + 1 - b.discardCount ≤ b.logs.length := by omega
  -- the entries are put on top of `p`
  have hlast : (b.logs.take (args.prevLogIndex + 1 - b.discardCount)).getLast? = some p := by
    rw [List.getLast?_eq_getElem?, List.length_take, min_eq_left hstart,
      List.getElem?_take_of_lt (by omega),
      show args.prevLogIndex + 1 - b.discardCount - 1 = args.prevLogIndex - b.discardCount by omega]
    exact hp
  have hbase : b.discardCount +
      (b.logs.take (args.prevLogIndex + 1 - b.discardCount)).length - 1 = args.prevLogIndex := by
    rw [List.length_take, min_eq_left hstart]
    omega
  have hmain : At (b.logs.take (args.prevLogIndex + 1 - b.discardCount) ++ args.entries)
      b.discardCount index e prev → At b.logs b.discardCount index e prev ∨
      At (⟨default, args.prevLogTerm⟩ :: args.entries) args.prevLogIndex index e prev := by
    intro h
    rcases h.of_append hlast with h | h
    · exact Or.inl h.of_take
    · rw [hbase] at h
      exact Or.inr (h.slot hterm)
  change At (Raft.copyEntries _ _ _) _ _ _ _ at h
  obtain ⟨hagree, hs⟩ | ⟨k, -, hs⟩ := Raft.splice_cases args.entries hstart
  · rw [hs] at h
    rcases h.of_splice (by omega) hstart hagree with h | h
    · exact hmain h
    · exact Or.inl h
  · rw [hs] at h
    exact hmain h

lemma at_install {args : InstallSnapshotArgs n C σ}
    (h : At (b.install args).logs (b.install args).discardCount index e prev) :
    At b.logs b.discardCount index e prev := by
  unfold Store.install at h
  split at h
  · rename_i hc
    exact at_discard hc.1.le h
  · -- slot `0` alone holds no entry
    have := h.lt
    change _ ∧ index < _ + (List.drop _ [_]).length at this
    rw [List.length_drop] at this
    change args.lastIncludedIndex < _ ∧ index < args.lastIncludedIndex + _ at this
    simp at this
    omega

end Store

namespace Cluster

variable {H : Raft n C (List C) → ApplyEntriesArgs n C → Prop} {s s' : Cluster n C}
  {past tr : List (Cluster n C)} {index prev prev' : ℕ} {e e' : LogEntry C}

/-! ### A leader only appends -/

/-- What a leader has beyond its snapshot it keeps, until the entries go into a snapshot. -/
def Extends (rf rf' : Raft n C (List C)) : Prop :=
  rf.discardCount ≤ rf'.discardCount ∧ ∀ index e prev, rf'.discardCount < index →
    At rf.logs rf.discardCount index e prev → At rf'.logs rf'.discardCount index e prev

/-- A leader goes on leading and appends, or its term is over for it. -/
def Reigns (rf rf' : Raft n C (List C)) : Prop :=
  ∀ t, (rf.ballot.Over t → rf'.ballot.Over t) ∧
    (rf.identity = .leader ∧ rf.currentTerm = t →
      (rf'.identity = .leader ∧ rf'.currentTerm = t ∧ Extends rf rf') ∨ rf'.ballot.Over t)

lemma Extends.refl (rf : Raft n C (List C)) : Extends rf rf := ⟨le_rfl, fun _ _ _ _ h => h⟩

lemma Extends.trans {rf rf' rf'' : Raft n C (List C)} (h : Extends rf rf') (h' : Extends rf' rf'') :
    Extends rf rf'' :=
  ⟨h.1.trans h'.1, fun index e prev hlt hat =>
    h'.2 index e prev hlt (h.2 index e prev (h'.1.trans_lt hlt) hat)⟩

lemma Reigns.refl (rf : Raft n C (List C)) : Reigns rf rf :=
  fun _ => ⟨id, fun h => Or.inl ⟨h.1, h.2, .refl rf⟩⟩

lemma Reigns.trans {rf rf' rf'' : Raft n C (List C)} (h : Reigns rf rf') (h' : Reigns rf' rf'') :
    Reigns rf rf'' := by
  refine fun t => ⟨fun ho => (h' t).1 ((h t).1 ho), fun hl => ?_⟩
  rcases (h t).2 hl with ⟨h₁, h₂, h₃⟩ | ho
  · rcases (h' t).2 ⟨h₁, h₂⟩ with ⟨h₁', h₂', h₃'⟩ | ho
    · exact Or.inl ⟨h₁', h₂', h₃.trans h₃'⟩
    · exact Or.inr ho
  · exact Or.inr ((h' t).1 ho)

end Cluster

open Cluster in
/-- A server that leads before and after its turn has only appended or compacted. -/
lemma Turn.extends {H : Raft n C (List C) → ApplyEntriesArgs n C → Prop} {i : Fin n}
    {node node' : Node n C} {got : Option (Packet n C)} {sent : List (Packet n C)}
    (h : Turn H i node node' got sent) (hshape : node.raft.store.Shape)
    (hl : node'.raft.identity = .leader) : Extends node.raft node'.raft := by
  have hstore : ∀ {b : Store C (List C)}, node'.raft.store = b →
      node'.raft.logs = b.logs ∧ node'.raft.discardCount = b.discardCount := by
    rintro _ rfl
    exact ⟨rfl, rfl⟩
  rcases h.store_cases with (h | h) | ⟨c, -, -, h⟩ | ⟨p, args, -, -, -, -, -, -, hf, -⟩ |
    ⟨index, -, hlt, h⟩ | ⟨p, args, -, -, -, -, -, hf, -⟩ | ⟨rfl, -⟩
  · obtain ⟨h₁, h₂⟩ := hstore h
    unfold Extends
    rw [h₁, h₂]
    exact Extends.refl node.raft
  · obtain ⟨h₁, h₂⟩ := hstore h
    unfold Extends
    rw [h₁, h₂]
    exact Extends.refl node.raft
  · obtain ⟨h₁, h₂⟩ := hstore h
    unfold Extends
    rw [h₁, h₂]
    exact ⟨le_rfl, fun index e prev _ hat => hat.append_left _⟩
  · cases hl.symm.trans (congrArg Ballot.identity hf)
  · obtain ⟨h₁, h₂⟩ := hstore h
    have hle : node.raft.discardCount ≤ index := by
      have : node.raft.discardCount = node.raft.lastIncludedIndex := hshape.discard
      omega
    unfold Extends
    rw [h₁, h₂]
    exact ⟨hle, fun i e prev hi hat => Store.at_discard_of_lt (b := node.raft.store) hle hat hi⟩
  · cases hl.symm.trans (congrArg Ballot.identity hf)
  · rw [node.restart_identity] at hl
    cases hl

namespace Cluster

variable {H : Raft n C (List C) → ApplyEntriesArgs n C → Prop} {s s' : Cluster n C}
  {past tr : List (Cluster n C)} {index prev prev' : ℕ} {e e' : LogEntry C}

/-! ### The shape of all logs -/

/-- The snapshot in an `InstallSnapshot` carries the index it is sent with. -/
def Shapely (s : Cluster n C) : Prop :=
  (∀ i, (s.raft i).store.Shape) ∧ ∀ p ∈ s.net, ∀ args, p.rpc = .installSnapshot args →
    args.lastIncludedIndex = (args.data.map Snapshot.index).getD 0

lemma Run.shapely (htr : Run H (s :: past)) : s.Shapely := by
  refine Trace.invariant (P := fun s _ => s.Shapely) ?_ ?_ htr
  · exact ⟨fun i => ⟨List.cons_ne_nil _ _, rfl, rfl, rfl, rfl⟩, fun p hp => by cases hp⟩
  · intro s past e s' _ hi hok hs
    obtain ⟨i, node, got, sent, hturn, hm⟩ := step_turn hok hs
    have hnode : node.raft.store.Shape := by
      rcases hturn.store_cases with (h | h) | ⟨c, -, -, h⟩ |
        ⟨p, args, rfl, -, -, -, hle, ⟨e, he, -⟩, -, h⟩ | ⟨index, -, -, h⟩ |
        ⟨p, args, rfl, -, hr, -, -, -, h⟩ | ⟨-, h⟩
      · rw [h]
        exact hi.1 i
      · rw [h]
        exact (hi.1 i).save
      · rw [h]
        exact (hi.1 i).append _
      · rw [h]
        exact (hi.1 i).splice hle he
      · rw [h]
        exact (hi.1 i).compact rfl
      · rw [h]
        exact (hi.1 i).install (hi.2 p hm.mem_got args hr)
      · rw [h]
        exact (hi.1 i).restart.symm ▸ hi.1 i
    refine ⟨?_, fun p hp args hr => ?_⟩
    · exact hm.forall_nodes (P := fun _ node => node.raft.store.Shape) hnode fun j _ => hi.1 j
    · rcases hm.mem_net hp with hp | hp
      · exact hi.2 p hp args hr
      · have h := hturn.sent_beat hp (Or.inr ⟨args, hr⟩)
        rw [hr] at h
        obtain ⟨e, -, -, h⟩ | ⟨k, e, -, h⟩ := Raft.heartBeatTo_cases h
        · cases h
          exact hnode.index
        · cases h

lemma step_reigns {e : Event n C} (htr : Run H (s :: past)) (hok : s.Heeds H e)
    (hs : s.step e = some s') (i : Fin n) : Reigns (s.raft i) (s'.raft i) := by
  intro t
  have hb := step_ballot hs i
  have hbok := (Run.ballot_ok htr i).2
  refine ⟨hb.over hbok, ?_⟩
  rintro ⟨hl, rfl⟩
  rcases hb.leader_or_over hbok hl with ⟨hl', ht'⟩ | ho
  · refine Or.inl ⟨hl', ht', ?_⟩
    obtain ⟨j, node, got, sent, hturn, hm⟩ := step_turn hok hs
    by_cases hij : i = j
    · subst hij
      change (s'.raft i).identity = .leader at hl'
      rw [hm.raft_self] at hl' ⊢
      exact hturn.extends ((Run.shapely htr).1 i) hl'
    · rw [hm.raft_other hij]
      exact .refl _
  · exact Or.inr ho

lemma Run.reigns (htr : Run H tr) (i : Fin n) {s₁ s₂ : Cluster n C} (h₁ : s₁ ∈ tr) (h₂ : s₂ ∈ tr) :
    Reigns (s₁.raft i) (s₂.raft i) ∨ Reigns (s₂.raft i) (s₁.raft i) :=
  Trace.total (R := fun s s' => Reigns (s.raft i) (s'.raft i)) (fun _ => .refl _)
    (fun _ _ _ => .trans) (fun _ _ _ _ htr hok hs => step_reigns htr hok hs i) htr h₁ h₂

/-- Whoever has led a term is its leader now or a follower. -/
lemma Run.reigns_now (htr : Run H (s :: past)) {i : Fin n} {s₁ : Cluster n C}
    (h₁ : s₁ ∈ s :: past) (hl : (s₁.raft i).identity = .leader)
    (hterm : (s₁.raft i).currentTerm = (s.raft i).currentTerm) :
    (s.raft i).identity = .leader ∨ (s.raft i).identity = .follower := by
  have hr : Reigns (s₁.raft i) (s.raft i) :=
    Trace.latest (R := fun s s' => Reigns (s.raft i) (s'.raft i)) (fun _ => .refl _)
      (fun _ _ _ => .trans) (fun _ _ _ _ htr hok hs => step_reigns htr hok hs i) htr h₁
  rcases (hr _).2 ⟨hl, hterm⟩ with ⟨hl', -⟩ | ho
  · exact Or.inl hl'
  · exact Or.inr (ho.2 rfl)

/-! ### Entries and their makers -/

/-- A leader has had `e`, of its own term, at `index` on an entry of term `prev`. -/
def Made (tr : List (Cluster n C)) (index : ℕ) (e : LogEntry C) (prev : ℕ) : Prop :=
  ∃ s ∈ tr, ∃ i, (s.raft i).identity = .leader ∧ (s.raft i).currentTerm = e.term ∧
    At (s.raft i).logs (s.raft i).discardCount index e prev

lemma Made.mono (h : Made past index e prev) : Made (s :: past) index e prev := by
  obtain ⟨s₁, hs₁, h⟩ := h
  exact ⟨s₁, List.mem_cons_of_mem _ hs₁, h⟩

/-- **One entry per index and term**, and it always stands on an entry of the same term. -/
lemma Made.unique (htr : Run H tr) (h : Made tr index e prev) (h' : Made tr index e' prev')
    (hterm : e.term = e'.term) : e = e' ∧ prev = prev' := by
  obtain ⟨s₁, hs₁, a, hl₁, ht₁, hat₁⟩ := h
  obtain ⟨s₂, hs₂, b, hl₂, ht₂, hat₂⟩ := h'
  obtain rfl : a = b :=
    htr.leader_unique hs₁ hs₂ hl₁ hl₂ (ht₁.trans (hterm.trans ht₂.symm))
  -- the server led the term in both states, so it has led it all the time in between
  have key : ∀ {rf rf' : Raft n C (List C)} {e e' : LogEntry C} {prev prev' : ℕ},
      Reigns rf rf' → rf.identity = .leader → rf'.identity = .leader →
      rf.currentTerm = rf'.currentTerm → At rf.logs rf.discardCount index e prev →
      At rf'.logs rf'.discardCount index e' prev' → e = e' ∧ prev = prev' := by
    intro rf rf' e e' prev prev' hr hl hl' ht hat hat'
    rcases (hr rf.currentTerm).2 ⟨hl, rfl⟩ with ⟨-, -, -, hext⟩ | ho
    · exact (hext index e prev hat'.lt.1 hat).unique hat'
    · have hf : rf'.identity = .follower := ho.2 ht.symm
      rw [hl'] at hf
      cases hf
  rcases htr.reigns a hs₁ hs₂ with hr | hr
  · exact key hr hl₁ hl₂ (ht₁.trans (hterm.trans ht₂.symm)) hat₁ hat₂
  · obtain ⟨h₁, h₂⟩ := key hr hl₂ hl₁ (ht₂.trans (hterm.symm.trans ht₁.symm)) hat₂ hat₁
    exact ⟨h₁.symm, h₂.symm⟩

/-- Everything in a log or on its way to one was made by a leader. -/
structure Matched (s : Cluster n C) (past : List (Cluster n C)) : Prop where
  made : ∀ i index e prev, At (s.raft i).logs (s.raft i).discardCount index e prev →
    Made (s :: past) index e prev
  sent : ∀ p ∈ s.net, ∀ args, p.rpc = .applyEntries args → ∀ index e prev,
    At (⟨default, args.prevLogTerm⟩ :: args.entries) args.prevLogIndex index e prev →
    Made (s :: past) index e prev

/-- The entries that a leader sends stand in the message where they stand in its log. -/
lemma at_of_heartBeat {rf : Raft n C (List C)} {i : Fin n} {args : ApplyEntriesArgs n C}
    (h : rf.heartBeatTo i = some (.applyEntries args))
    (hat : At (⟨default, args.prevLogTerm⟩ :: args.entries) args.prevLogIndex index e prev) :
    At rf.logs rf.discardCount index e prev := by
  obtain ⟨x, -, -, h⟩ | ⟨k, x, hx, h⟩ := Raft.heartBeatTo_cases h
  · cases h
  · cases h
    obtain ⟨hk, rfl⟩ := List.getElem?_eq_some_iff.1 hx
    have hat : At (rf.logs[k] :: rf.logs.drop (k + 1)) (rf.raftIndex k) index e prev :=
      At.slot (p := ⟨default, rf.logs[k].term⟩) rfl hat
    rw [← List.drop_eq_getElem_cons hk] at hat
    unfold Raft.raftIndex at hat
    rw [Nat.add_comm] at hat
    exact hat.of_drop

/-- **Log matching, the invariant.**  A turn puts no entry on top of another that its leader had not
put there. -/
lemma Run.matched (htr : Run H (s :: past)) : Matched s past := by
  refine Trace.invariant (P := Matched) ?_ ?_ htr
  · refine ⟨fun i index e prev hat => ?_, fun p hp => by cases hp⟩
    have hlt := hat.lt
    change 0 < index ∧ index < 0 + 1 at hlt
    omega
  · intro s past e₀ s' htr hi hok hs
    obtain ⟨i, node, got, sent, hturn, hm⟩ := step_turn hok hs
    have hshape := (Run.shapely htr).1 i
    have hdisc : (s.nodes i).raft.discardCount = (s.nodes i).raft.lastIncludedIndex :=
      hshape.discard
    have hself : s'.raft i = node.raft := hm.raft_self
    have hnode : ∀ index e prev, At node.raft.logs node.raft.discardCount index e prev →
        Made (s' :: s :: past) index e prev := by
      intro index e prev hat
      have hold : At (s.raft i).logs (s.raft i).discardCount index e prev →
          Made (s' :: s :: past) index e prev := fun h => (hi.made i index e prev h).mono
      change At node.raft.store.logs node.raft.store.discardCount index e prev at hat
      rcases hturn.store_cases with (h | h) | ⟨c, hl, hb, h⟩ |
        ⟨p, args, rfl, -, hr, -, hle, ⟨x, hx, hxt⟩, -, h⟩ | ⟨k, -, hk, h⟩ |
        ⟨p, args, rfl, -, hr, -, hk, -, h⟩ | ⟨-, h⟩
      · rw [h] at hat
        exact hold hat
      · rw [h] at hat
        exact hold hat
      · -- a new entry of the leader
        have hat' := hat
        rw [h] at hat
        rcases Store.at_append (b := (s.nodes i).raft.store) hshape.logs_ne hat with hat | rfl
        · exact hold hat
        · refine ⟨s', List.mem_cons_self, i, ?_, ?_, ?_⟩
          · rw [hself]
            exact (congrArg Ballot.identity hb).trans hl
          · rw [hself]
            exact congrArg Ballot.term hb
          · rw [hself]
            exact hat'
      · rw [h] at hat
        rcases Store.at_splice (b := (s.nodes i).raft.store) hle hx hxt hat with hat | hat
        · exact hold hat
        · exact (hi.sent p hm.mem_got args hr index e prev hat).mono
      · rw [h] at hat
        exact hold (Store.at_discard (b := (s.nodes i).raft.store) (hdisc.le.trans hk.le) hat)
      · rw [h] at hat
        exact hold (Store.at_install (b := (s.nodes i).raft.store) hat)
      · rw [h, show (s.nodes i).raft.store.restart = (s.nodes i).raft.store from
          hshape.restart] at hat
        exact hold hat
    refine ⟨?_, fun p hp args hr index e prev hat => ?_⟩
    · exact hm.forall_nodes (P := fun _ node => ∀ index e prev,
        At node.raft.logs node.raft.discardCount index e prev → Made (s' :: s :: past) index e prev)
        hnode fun j _ index e prev hat => (hi.made j index e prev hat).mono
    · rcases hm.mem_net hp with hp | hp
      · exact (hi.sent p hp args hr index e prev hat).mono
      · have h := hturn.sent_beat hp (Or.inl ⟨args, hr⟩)
        rw [hr] at h
        exact hnode index e prev (at_of_heartBeat h hat)

/-! ### Two logs that meet agree from there down -/

/-- Logs in which every entry was made agree below an index where their terms are equal. -/
lemma agree_below (htr : Run H tr) {logs logs' : List (LogEntry C)} {d d' : ℕ}
    (hmade : ∀ index e prev, At logs d index e prev → Made tr index e prev)
    (hmade' : ∀ index e prev, At logs' d' index e prev → Made tr index e prev)
    {k k' j : ℕ} {x x' : LogEntry C} (hx : logs[k]? = some x) (hx' : logs'[k']? = some x')
    (hk : d + k = d' + k') (hterm : x.term = x'.term) (hj : j ≤ d + k) (hd : d < j) (hd' : d' < j) :
    ∃ e, logs[j - d]? = some e ∧ logs'[j - d']? = some e := by
  induction k generalizing k' x x' with
  | zero => omega
  | succ k ih =>
    obtain ⟨l, rfl⟩ : ∃ l, k' = l + 1 := ⟨k' - 1, by omega⟩
    obtain ⟨hlen, -⟩ := List.getElem?_eq_some_iff.1 hx
    obtain ⟨hlen', -⟩ := List.getElem?_eq_some_iff.1 hx'
    have hp : logs[k]? = some logs[k] := List.getElem?_eq_getElem (by omega)
    have hp' : logs'[l]? = some logs'[l] := List.getElem?_eq_getElem (by omega)
    have hat : At logs d (d + k + 1) x logs[k].term := ⟨k, _, hp, hx, rfl, rfl⟩
    have hat' : At logs' d' (d + k + 1) x' logs'[l].term := ⟨l, _, hp', hx', rfl, by omega⟩
    obtain ⟨rfl, hprev⟩ := (hmade _ _ _ hat).unique htr (hmade' _ _ _ hat') hterm
    rcases Nat.lt_or_ge j (d + (k + 1)) with hlt | hge
    · exact ih hp hp' (by omega) hprev (by omega)
    · refine ⟨x, ?_, ?_⟩
      · rwa [show j - d = k + 1 by omega]
      · rwa [show j - d' = l + 1 by omega]

/-- **Log matching with compaction.**  In every reachable state, if two servers hold an entry of the
same term at index `i`, slot `0` included, they hold the same entry at every index `j ≤ i` beyond
the snapshots of both. -/
theorem log_matching {s : Cluster n C} (h : Reachable step anyStep init s) {a b : Fin n} {i : ℕ}
    {x y : LogEntry C} (hx : (s.raft a).entry ((s.raft a).realIndex i) = some x)
    (hy : (s.raft b).entry ((s.raft b).realIndex i) = some y) (hterm : x.term = y.term)
    {j : ℕ} (hj : j ≤ i) (ha : (s.raft a).lastIncludedIndex < j)
    (hb : (s.raft b).lastIncludedIndex < j) :
    ∃ e, (s.raft a).entry ((s.raft a).realIndex j) = some e ∧
      (s.raft b).entry ((s.raft b).realIndex j) = some e := by
  obtain ⟨past, htr⟩ := h
  have hrun : Run Unrestricted (s :: past) := htr.mono fun s e _ => heeds_unrestricted s e
  have hda : (s.raft a).discardCount = (s.raft a).lastIncludedIndex := (hrun.shapely.1 a).discard
  have hdb : (s.raft b).discardCount = (s.raft b).lastIncludedIndex := (hrun.shapely.1 b).discard
  obtain ⟨hai, hx⟩ := Raft.entry_realIndex hx
  obtain ⟨hbi, hy⟩ := Raft.entry_realIndex hy
  obtain ⟨e, he, he'⟩ := agree_below hrun (hrun.matched.made a) (hrun.matched.made b) hx hy
    (by omega) hterm (by omega) (hda ▸ ha) (hdb ▸ hb)
  exact ⟨e, Raft.entry_of_realIndex (by omega) he, Raft.entry_of_realIndex (by omega) he'⟩

/-- Server `0` commits its first entry with server `1` and takes a snapshot of it; then server `1` stores
two more entries. -/
def compacted : List (Event 3 ℕ) :=
  [.electionTimeout 0, .deliver 0, .deliver 1, .start 0 10, .deliver 1, .deliver 2, .applyLog 0,
    .applyMsg 0, .snapshot 0 1, .start 0 20, .start 0 30, .deliver 4]

/-- The terms at index `3` are equal, so the entries at index `2` are. -/
theorem log_matching_compacted : ∃ s : Cluster 3 ℕ, Reachable step anyStep init s ∧
    (s.raft 0).lastIncludedIndex = 1 ∧ (s.raft 1).lastIncludedIndex = 0 ∧
    (s.raft 0).entry ((s.raft 0).realIndex 3) = some ⟨30, 1⟩ ∧
    (s.raft 1).entry ((s.raft 1).realIndex 3) = some ⟨30, 1⟩ ∧
    ∃ e, (s.raft 0).entry ((s.raft 0).realIndex 2) = some e ∧
      (s.raft 1).entry ((s.raft 1).realIndex 2) = some e := by
  have hrun : (run step (init : Cluster 3 ℕ) compacted).map
      (fun s => ((s.raft 0).entry ((s.raft 0).realIndex 3), (s.raft 0).lastIncludedIndex,
        (s.raft 1).entry ((s.raft 1).realIndex 3), (s.raft 1).lastIncludedIndex)) =
      some (some ⟨30, 1⟩, 1, some ⟨30, 1⟩, 0) := by
    decide +kernel
  obtain ⟨s, hs, heq⟩ := Option.map_eq_some_iff.1 hrun
  simp only [Prod.mk.injEq] at heq
  obtain ⟨hx, hi, hy, hj⟩ := heq
  have hreach := Reachable.init.run hs
  refine ⟨s, hreach, hi, hj, hx, hy, log_matching hreach hx hy rfl (by decide) ?_ ?_⟩
  · omega
  · omega

end Cluster

end RaftLabs
