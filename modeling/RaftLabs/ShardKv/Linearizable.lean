import RaftLabs.ShardKv.Ownership

/-!
# shardkv is linearizable

The order of the operations is the order in which the groups execute them.  What carries the proof
is kept shard by shard, at the place where the shard is: the group that has it has the values that
the one sequential map has, and its table of last operations knows every call that was executed on
the shard, on whatever group; while the shard is under way, the same holds of what was set aside and
of the table of the group that set it aside (`Store`).  So a repeated call is recognised wherever it
arrives.
-/

namespace RaftLabs.ShardKv

open Lib Ctrler ShardKV

variable {H : History} {gid : Gid} {kv : ShardKV} {log : List Command} {command : Command}

/-! ### What a log does -/

lemma effects_concat (gid : Gid) (log : List Command) (command : Command) :
    effects gid (log ++ [command]) = effects gid log ++ executed (replay gid log) command := by
  unfold effects replay
  rw [List.foldl_concat, foldl_fst (fun kv command => (ShardKV.exec kv command).1)]

/-! ### Operations -/

@[simp] lemma request_op (r : Request) : (ShardKV.op r).request = r := by
  obtain ⟨c, k, _ | _ | _⟩ := r <;> rfl

@[simp] lemma key_op (r : Request) : (ShardKV.op r).key = r.method.key := by
  obtain ⟨c, k, _ | _ | _⟩ := r <;> rfl

/-- An operation changes the one key it is about. -/
lemma store_step_of_ne (m : GoString → Option GoString) (r : Request) {k : GoString}
    (h : k ≠ r.method.key) : (store.step m r).1 k = m k := by
  obtain ⟨c, n, key | ⟨key, value⟩ | ⟨key, value⟩⟩ := r
  · rfl
  · exact Function.update_of_ne h _ _
  · exact Function.update_of_ne h _ _

/-- Where the group has the value of the map, it does what the map does. -/
lemma perform_op (kv : ShardKV) (r : Request) {m : GoString → Option GoString}
    (h : kv.data r.method.key = m r.method.key) :
    (kv.perform (ShardKV.op r)).data r.method.key = (store.step m r).1 r.method.key ∧
    (kv.perform (ShardKV.op r)).lastOp = Function.update kv.lastOp r.clientId
      (some ⟨r.callId, (store.step m r).2⟩) := by
  obtain ⟨c, n, key | ⟨key, value⟩ | ⟨key, value⟩⟩ := r
  · exact ⟨h, by simp only [perform, ShardKV.op, store]; rw [← show kv.data key = m key from h]⟩
  · exact ⟨by simp [perform, ShardKV.op, store, Method.key], rfl⟩
  · refine ⟨?_, rfl⟩
    simp [perform, ShardKV.op, store, Method.key]
    rw [show kv.data key = m key from h]

/-! ### A shard at its place -/

/-- The map has the values of the shard. -/
def Agrees (order : List Request) (i : Shard) (data : Data) : Prop :=
  ∀ k, key2shard k = i → data k = store.after order k

/-- The table knows every call that was executed on the shard. -/
def Covers (order : List Request) (i : Shard) (lastOp : ℕ → Option LastOperation) : Prop :=
  ∀ r ∈ order, key2shard r.method.key = i → ∃ v, lastOp r.clientId = some v ∧ r.callId ≤ v.callId

/-- Values and calls of a shard are where the shard is. -/
def AtPlace (logs : Gid → List Command) (order : List Request) (i : Shard) :
    Handover.Place Gid → Prop
  | .fresh => (∀ r ∈ order, key2shard r.method.key ≠ i) ∧ Agrees order i fun _ => none
  | .held g => Agrees order i (replay g (logs g)).data ∧ Covers order i (replay g (logs g)).lastOp
  | .frozen g n => (∀ d, SetAside g (logs g) n i d → Agrees order i d) ∧
      ∀ kv, Version logs g kv → n < kv.config.num → Covers order i kv.lastOp

lemma atPlace_held {logs : Gid → List Command} {order : List Request} {i : Shard} {g : Gid} :
    AtPlace logs order i (.held g) ↔
      Agrees order i (replay g (logs g)).data ∧ Covers order i (replay g (logs g)).lastOp :=
  Iff.rfl

/-- The tables hold results of the order. -/
def Tables (logs : Gid → List Command) (order : List Request) : Prop :=
  ∀ g kv, Version logs g kv → ∀ c v, kv.lastOp c = some v →
    ∃ r, r.clientId = c ∧ r.callId = v.callId ∧ store.Answered order r v.result

section Commit

variable {logs : Gid → List Command} {history : List (Action Request GoString)}
  {place : Shard → Handover.Place Gid} {order : List Request} {i : Shard} {kv' : ShardKV}

lemma Agrees.restrict {d : Data} (h : Agrees order i d) :
    Agrees order i fun k => if key2shard k = i then d k else none :=
  fun k hk => (if_pos hk).trans (h k hk)

lemma Covers.later (h : Covers order i kv.lastOp) (hl : Later kv kv') :
    Covers order i kv'.lastOp := by
  intro r hr hi
  obtain ⟨v, hv, hle⟩ := h r hr hi
  obtain ⟨v', hv', hle'⟩ := hl.calls _ v hv
  exact ⟨v', hv', hle.trans hle'⟩

/-- What has not been touched covers nothing and has no values. -/
lemma covers_of_fresh (h : AtPlace logs order i .fresh) (lastOp : ℕ → Option LastOperation) :
    Covers order i lastOp := fun r hr hi => absurd hi (h.1 r hr)

/-- A state of a log that has grown by one command. -/
lemma version_extended {g : Gid} (h : Version (extended logs gid command) g kv) :
    Version logs g kv ∨ g = gid ∧ kv = ((replay gid (logs gid)).exec command).1 := by
  obtain ⟨before, hb, rfl⟩ := h
  by_cases hg : g = gid
  · subst hg
    rw [extended, Function.update_self] at hb
    rcases List.prefix_concat_iff.1 hb with rfl | hb
    · exact Or.inr ⟨rfl, replay_concat _ _⟩
    · exact Or.inl ⟨before, hb, rfl⟩
  · rw [extended, Function.update_of_ne hg] at hb
    exact Or.inl ⟨before, hb, rfl⟩

/-- What was set aside at the end of a configuration was set aside before the next one. -/
lemma SetAside.lt {n : ℕ} {d : Data} (h : SetAside gid log n i d) (hlaw : Lawful H gid log) :
    n < (replay gid log).config.num := by
  obtain ⟨before, config, hp, hn, hc, -⟩ := h
  refine lt_of_lt_of_le ?_ (hlaw.later hp).num
  rcases hlaw before _ hp with hle | ⟨hnum, heq, hreqs⟩
  · omega
  · have hnext : Next H (replay gid before) config :=
      ⟨hnum, heq, by simpa [noReqs] using hreqs⟩
    rw [replay_concat, exec_config, (applyConfig_rest hnext.tick).1]
    omega

lemma SetAside.of_concat {n : ℕ} {d : Data} (h : SetAside gid (log ++ [command]) n i d)
    (hn : (replay gid log).config.num ≠ n) : SetAside gid log n i d := by
  obtain ⟨before, config, hp, hb, hc, rfl⟩ := h
  rcases concat_isPrefix_concat hp with hp | ⟨rfl, -⟩
  · exact ⟨before, config, hp, hb, hc, rfl⟩
  · exact absurd hb hn

/-- A shard that stays where it is. -/
lemma AtPlace.keep {p : Handover.Place Gid} (hat : AtPlace logs order i p)
    (hinv : Handover.Inv (H.owner i) (view logs i p))
    (hlater : Later (replay gid (logs gid)) ((replay gid (logs gid)).exec command).1)
    (hdata : p = .held gid → ∀ k, key2shard k = i →
      ((replay gid (logs gid)).exec command).1.data k = (replay gid (logs gid)).data k) :
    AtPlace (extended logs gid command) order i p := by
  cases p with
  | fresh => exact hat
  | held g =>
    by_cases hg : g = gid
    · subst hg
      rw [atPlace_held, replay_extended_self]
      exact ⟨fun k hk => (hdata rfl k hk).trans (hat.1 k hk), hat.2.later hlater⟩
    · rw [atPlace_held, replay_extended_ne hg]
      exact hat
  | frozen g n =>
    have hn : n < (replay g (logs g)).config.num := (hinv.frozen g n rfl).2.2.2
    refine ⟨fun d hd => hat.1 d ?_, fun kv hv hlt => ?_⟩
    · by_cases hg : g = gid
      · subst hg
        rw [extended, Function.update_self] at hd
        exact hd.of_concat hn.ne'
      · rw [extended, Function.update_of_ne hg] at hd
        exact hd
    · rcases version_extended hv with hv | ⟨rfl, rfl⟩
      · exact hat.2 kv hv hlt
      · exact (hat.2 _ version_replay hn).later hlater

/-- An operation on another shard. -/
lemma AtPlace.perform {p : Handover.Place Gid} (hat : AtPlace logs order i p) {r : Request}
    (hr : key2shard r.method.key ≠ i) : AtPlace logs (order ++ [r]) i p := by
  have hafter : ∀ k, key2shard k = i → store.after (order ++ [r]) k = store.after order k := by
    intro k hk
    rw [Object.after_concat]
    refine store_step_of_ne _ r ?_
    rintro rfl
    exact hr hk
  have hagree : ∀ {d : Data}, Agrees order i d → Agrees (order ++ [r]) i d :=
    fun h k hk => (h k hk).trans (hafter k hk).symm
  have hcover : ∀ {l}, Covers order i l → Covers (order ++ [r]) i l := by
    intro l h r' hr' hi
    rcases List.mem_append.1 hr' with hr' | hr'
    · exact h r' hr' hi
    · rw [List.mem_singleton.1 hr'] at hi
      exact absurd hi hr
  cases p with
  | fresh =>
    refine ⟨fun r' hr' => ?_, hagree hat.2⟩
    rcases List.mem_append.1 hr' with hr' | hr'
    · exact hat.1 r' hr'
    · rw [List.mem_singleton.1 hr']
      exact hr
  | held g => exact ⟨hagree hat.1, hcover hat.2⟩
  | frozen g n => exact ⟨fun d hd => hagree (hat.1 d hd), fun kv hv hn => hcover (hat.2 kv hv hn)⟩

lemma Tables.extend (ht : Tables logs order)
    (hnew : ∀ c v, ((replay gid (logs gid)).exec command).1.lastOp c = some v →
      ∃ r, r.clientId = c ∧ r.callId = v.callId ∧ store.Answered order r v.result) :
    Tables (extended logs gid command) order := by
  intro g kv hv
  rcases version_extended hv with hv | ⟨-, rfl⟩
  · exact ht g kv hv
  · exact hnew

lemma Tables.append (ht : Tables logs order) (r : Request) : Tables logs (order ++ [r]) := by
  intro g kv hv c v hc
  obtain ⟨r', h₁, h₂, h₃⟩ := ht g kv hv c v hc
  exact ⟨r', h₁, h₂, h₃.append [r]⟩

/-! ### A configuration -/

/-- Where a shard goes when its group applies a configuration, its values and calls go. -/
lemma AtPlace.config (hat : AtPlace logs order i (place i)) (ho : Owned H logs place)
    (hlaw : ∀ g, Lawful H g (logs g)) {config : Config}
    (hn : Next H (replay gid (logs gid)) config) :
    AtPlace (extended logs gid (.config config)) order i (afterConfig H logs gid place i) := by
  have hl := (hlaw gid).books
  set kv := replay gid (logs gid) with hkv
  have hexec : (kv.exec (.config config)).1 = kv.tick.execApplyConfig config := exec_config config
  have hlater : Later kv (kv.exec (.config config)).1 := by
    rw [hexec]
    exact (@Change.config H gid kv config hn).later
  have hlast : (kv.exec (.config config)).1.lastOp = kv.lastOp := by
    rw [hexec]
    exact (applyConfig_rest hn.tick).2.2.1
  have hdata : ∀ k, (kv.exec (.config config)).1.data k =
      if H.owner (key2shard k) kv.config.num = gid ∧
        H.owner (key2shard k) (kv.config.num + 1) ≠ gid then none else kv.data k := by
    intro k
    rw [hexec]
    exact hl.tick.data_applyConfig hn.tick k
  have hepoch : (view logs i (place i)).epoch gid = kv.config.num := rfl
  unfold afterConfig Handover.State.advance
  dsimp only
  rw [hepoch]
  split_ifs with h0 hfirst hlose
  · -- the first owner has the shard, without data
    have hfresh : place i = .fresh := (ho i).fresh_of_first h0 hfirst.2
    rw [hfresh] at hat
    rw [atPlace_held, replay_extended_self]
    refine ⟨fun k hk => ?_, covers_of_fresh hat _⟩
    rw [hdata, hk, h0, if_neg (fun h => hfirst.1 h.1), ← hat.2 k hk]
    refine hl.keys k fun hmem => ?_
    have := (hl.mine _ hmem).1
    omega
  · refine hat.keep (ho i) hlater fun hheld k _ => ?_
    have := ((ho i).owns gid (((ho i).held gid).2 hheld)).1
    rw [hepoch] at this
    omega
  · -- the group puts the shard aside
    have hkeep : Agrees order i (fun k => if key2shard k = i then kv.data k else none) ∧
        Covers order i kv.lastOp := by
      by_cases hmem : i ∈ kv.myShards
      · have hheld : place i = .held gid := ((ho i).held gid).1 hmem
        rw [hheld] at hat
        exact ⟨hat.1.restrict, hat.2⟩
      · have hfresh : place i = .fresh := by
          refine (ho i).fresh_of_idle (g := gid) (Nat.pos_of_ne_zero h0) hmem ?_
          exact hl.idle i (Nat.pos_of_ne_zero h0) hlose.1 hmem (hn.noReqs i)
        rw [hfresh] at hat
        refine ⟨Agrees.restrict fun k hk => ?_, covers_of_fresh hat _⟩
        rw [← hat.2 k hk]
        exact hl.keys k (by rw [hk]; exact hmem)
    refine ⟨fun d hd => ?_, fun kv' hv hlt => ?_⟩
    · rw [extended, Function.update_self] at hd
      obtain ⟨before, config', hp, hb, hc, rfl⟩ := hd
      rcases concat_isPrefix_concat hp with hp | ⟨rfl, -⟩
      · have hold : SetAside gid (logs gid) kv.config.num i
            (fun k => if key2shard k = i then (replay gid before).data k else none) :=
          ⟨before, config', hp, hb, hc, rfl⟩
        exact absurd (hold.lt (hlaw gid)) (lt_irrefl _)
      · exact hkeep.1
    · rcases version_extended hv with ⟨before, hb, rfl⟩ | ⟨-, rfl⟩
      · exact absurd hlt (not_lt.2 ((hlaw gid).later hb).num)
      · rw [hlast]
        exact hkeep.2
  · refine hat.keep (ho i) hlater fun _ k hk => ?_
    rw [hdata, hk, if_neg hlose]

/-! ### Data that arrives -/

/-- The group takes a shard over, with its values and its calls; the others stay where they are. -/
lemma AtPlace.migrate (hat : ∀ i, AtPlace logs order i (place i)) (ho : Owned H logs place)
    (hlaw : ∀ g, Lawful H g (logs g)) {m : MigrateShardReply} (hm : Supplied H logs gid m)
    (hnum : m.configNum + 1 = (replay gid (logs gid)).config.num)
    (hmissing : m.shard ∉ (replay gid (logs gid)).myShards)
    (hasked : (replay gid (logs gid)).shardDataReqs m.shard = some m.configNum)
    (hexec : ((replay gid (logs gid)).exec (.migrate m)).1 =
      ((replay gid (logs gid)).tick.adopt m).settle m) (i : Shard) :
    AtPlace (extended logs gid (.migrate m)) order i
      (Function.update place m.shard (.held gid) i) := by
  set kv := replay gid (logs gid) with hkv
  obtain ⟨hdata, hlast, -, -, -, -⟩ := (kv.tick.adopt m).settle_fields m
  have hlater : Later kv (kv.exec (.migrate m)).1 := by
    rw [hexec]
    exact (@Change.migrate H gid kv m hnum hmissing hasked).later
  obtain ⟨src, hv, hd, hops⟩ := hm.source
  obtain ⟨before, hb, rfl⟩ := hv
  have hsrc := ((hlaw _).mono hb).books.aside _ _ _ hd
  by_cases hi : i = m.shard
  · subst hi
    have hfrozen : place m.shard = .frozen (H.owner m.shard m.configNum) m.configNum :=
      (ho m.shard).frozen_of_receive (hm.mayReceive hlaw hnum hmissing _)
    have hat' := hat m.shard
    rw [hfrozen] at hat'
    rw [Function.update_self, atPlace_held, replay_extended_self, ← hkv, hexec, hdata, hlast]
    constructor
    · intro k hk
      have hnone : kv.data k = none := (hlaw gid).books.keys k (by rw [hk]; exact hmissing)
      show (m.data k).or (kv.data k) = _
      rw [hnone, Option.or_none]
      exact hat'.1 m.data ((((hlaw _).mono hb).setAside hd).mono hb) k hk
    · intro r hr hi
      obtain ⟨v, hv, hle⟩ := hat'.2 _ ⟨before, hb, rfl⟩ hsrc.1 r hr hi
      obtain ⟨v', hv', hle'⟩ := mergeOp_calls (kv.lastOp r.clientId)
        (m.lastOperation r.clientId) (Or.inr (by rw [hops]; exact hv))
      exact ⟨v', hv', hle.trans hle'⟩
  · rw [Function.update_of_ne hi]
    refine (hat i).keep (ho i) hlater fun _ k hk => ?_
    rw [hexec, hdata]
    show (m.data k).or (kv.data k) = kv.data k
    rw [hsrc.2.2 k (by rw [hk]; exact hi), Option.none_or]

/-- The table after data has arrived. -/
lemma Tables.migrate (ht : Tables logs order) {m : MigrateShardReply} (hm : Supplied H logs gid m)
    (hexec : ((replay gid (logs gid)).exec (.migrate m)).1 =
      ((replay gid (logs gid)).tick.adopt m).settle m) :
    Tables (extended logs gid (.migrate m)) order := by
  refine ht.extend fun c v hv => ?_
  rw [hexec, (ShardKV.settle_fields _ m).2.1] at hv
  have hv : mergeOp ((replay gid (logs gid)).lastOp c) (m.lastOperation c) = some v := hv
  obtain ⟨src, hsrc, -, hops⟩ := hm.source
  -- an entry is one of the two that are merged
  have hor : (replay gid (logs gid)).lastOp c = some v ∨ m.lastOperation c = some v := by
    unfold mergeOp at hv
    split at hv
    · exact Or.inl hv
    · rename_i heq₁ heq₂
      exact Or.inr (heq₂.trans hv)
    · rename_i heq₁ heq₂
      split_ifs at hv
      · exact Or.inr (heq₂.trans hv)
      · exact Or.inl (heq₁.trans hv)
  rcases hor with hv | hv
  · exact ht gid _ version_replay c v hv
  · rw [hops] at hv
    exact ht _ src hsrc c v hv

/-! ### An operation -/

/-- An operation is executed where its shard is. -/
lemma held_of_performs (hat : ∀ i, AtPlace logs order i (place i)) (ho : Owned H logs place)
    {r : Request} (hperf : (replay gid (logs gid)).performs (ShardKV.op r)) :
    place (key2shard r.method.key) = .held gid ∧
      Agrees order (key2shard r.method.key) (replay gid (logs gid)).data ∧
      Covers order (key2shard r.method.key) (replay gid (logs gid)).lastOp := by
  simp only [performs, checkRightGroup, key_op, Bool.and_eq_true, decide_eq_true_eq] at hperf
  have hheld : place (key2shard r.method.key) = .held gid := ((ho _).held gid).1 hperf.2
  refine ⟨hheld, ?_⟩
  rw [← atPlace_held, ← hheld]
  exact hat _

/-- An operation that is executed is new. -/
lemma not_mem_order (hat : ∀ i, AtPlace logs order i (place i)) (ho : Owned H logs place)
    {r : Request} (hperf : (replay gid (logs gid)).performs (ShardKV.op r)) : r ∉ order := by
  intro hmem
  obtain ⟨v, hv, hle⟩ := (held_of_performs hat ho hperf).2.2 r hmem rfl
  simp only [performs, done, clientId_op, callId_op, hv, Bool.and_eq_true, Bool.not_eq_true',
    decide_eq_false_iff_not] at hperf
  exact hperf.1 hle

/-- The group executes the operation, and so does the map. -/
lemma AtPlace.execute (hat : ∀ i, AtPlace logs order i (place i)) (ho : Owned H logs place)
    {r : Request} (hperf : (replay gid (logs gid)).performs (ShardKV.op r)) (i : Shard) :
    AtPlace (extended logs gid (.op (ShardKV.op r))) (order ++ [r]) i (place i) := by
  set kv := replay gid (logs gid) with hkv
  have hexec : (kv.exec (.op (ShardKV.op r))).1 = kv.tick.perform (ShardKV.op r) := by
    rw [exec_op, if_pos hperf]
  have hlater : Later kv (kv.exec (.op (ShardKV.op r))).1 := by
    rw [hexec]
    exact (@Change.op H gid kv _ hperf).later
  have hother : ∀ k ≠ r.method.key, (kv.exec (.op (ShardKV.op r))).1.data k = kv.data k := by
    intro k hk
    rw [hexec]
    exact perform_data_of_ne (by simpa using hk)
  by_cases hi : key2shard r.method.key = i
  · subst hi
    obtain ⟨hheld, hat'⟩ := held_of_performs hat ho hperf
    obtain ⟨hdata, hlast⟩ := perform_op kv.tick r (hat'.1 _ rfl)
    rw [hheld, atPlace_held, replay_extended_self, ← hkv]
    constructor
    · intro k hk
      rw [Object.after_concat]
      by_cases hkey : k = r.method.key
      · rw [hkey, hexec]
        exact hdata
      · rw [hother k hkey, store_step_of_ne _ r hkey]
        exact hat'.1 k hk
    · intro r' hr' hi'
      rcases List.mem_append.1 hr' with hr' | hr'
      · exact hat'.2.later hlater r' hr' hi'
      · rw [List.mem_singleton.1 hr', hexec, hlast]
        exact ⟨_, Function.update_self _ _ _, le_rfl⟩
  · refine AtPlace.perform ((hat i).keep (ho i) hlater fun _ k hk => hother k ?_) hi
    rintro rfl
    exact hi hk

/-- The table after an operation. -/
lemma Tables.execute (ht : Tables logs order) (hat : ∀ i, AtPlace logs order i (place i))
    (ho : Owned H logs place) {r : Request}
    (hperf : (replay gid (logs gid)).performs (ShardKV.op r)) :
    Tables (extended logs gid (.op (ShardKV.op r))) (order ++ [r]) := by
  obtain ⟨-, hat', -⟩ := held_of_performs hat ho hperf
  refine (ht.append r).extend fun c v hv => ?_
  rw [exec_op, if_pos hperf] at hv
  rw [(perform_op (replay gid (logs gid)).tick r (hat' _ rfl)).2] at hv
  by_cases hc : c = r.clientId
  · subst hc
    rw [Function.update_self] at hv
    cases hv
    exact ⟨r, rfl, rfl, Object.answered_concat order r⟩
  · rw [Function.update_of_ne hc] at hv
    exact (ht.append r) gid _ version_replay c v hv

/-! ### One command more -/

/-- The order explains what the groups have done. -/
structure Explains (H : History) (logs : Gid → List Command)
    (history : List (Action Request GoString)) (place : Shard → Handover.Place Gid)
    (order : List (Gid × Request)) : Prop where
  owned : Owned H logs place
  shards : ∀ i, AtPlace logs (order.map Prod.snd) i (place i)
  tables : Tables logs (order.map Prod.snd)
  linear : Linearization store history (order.map Prod.snd)
  /-- The executions of a group are those of its log, in their order. -/
  groups : ∀ g, (order.filter fun p => p.1 = g).map (fun p => ShardKV.op p.2) = effects g (logs g)

lemma effects_extended_of_nil (h : executed (replay gid (logs gid)) command = []) (g : Gid) :
    effects g (extended logs gid command g) = effects g (logs g) := by
  by_cases hg : g = gid
  · subst hg
    rw [extended, Function.update_self, effects_concat, h, List.append_nil]
  · rw [extended, Function.update_of_ne hg]

/-- **One command more in one log**: the order stays, or grows by the operation executed. -/
theorem Explains.extend {order : List (Gid × Request)} (he : Explains H logs history place order)
    (hlaw : ∀ g, Lawful H g (logs g)) (hb : Backed H logs history gid command) :
    ∃ place' more, Explains H (extended logs gid command) history place' (order ++ more) := by
  have hl := (hlaw gid).books
  have hchange := hl.change (hb.legit hlaw)
  generalize hkv : ((replay gid (logs gid)).exec command).1 = kv' at hchange
  have hlater := hchange.later
  rw [← hkv] at hlater
  have hquiet : ∀ place', Owned H (extended logs gid command) place' →
      (∀ i, AtPlace (extended logs gid command) (order.map Prod.snd) i (place' i)) →
      Tables (extended logs gid command) (order.map Prod.snd) →
      executed (replay gid (logs gid)) command = [] →
      ∃ place' more, Explains H (extended logs gid command) history place' (order ++ more) := by
    intro place' ho hat ht hnil
    refine ⟨place', [], ?_⟩
    rw [List.append_nil]
    exact ⟨ho, hat, ht, he.linear, fun g => by rw [effects_extended_of_nil hnil]; exact he.groups g⟩
  -- a command that leaves values and calls alone
  have hsame : kv'.config = (replay gid (logs gid)).config →
      kv'.myShards = (replay gid (logs gid)).myShards →
      kv'.data = (replay gid (logs gid)).data → kv'.lastOp = (replay gid (logs gid)).lastOp →
      executed (replay gid (logs gid)) command = [] →
      ∃ place' more, Explains H (extended logs gid command) history place' (order ++ more) := by
    intro h₁ h₂ h₃ h₄
    refine hquiet place (he.owned.same (by rw [hkv, h₁]) (by rw [hkv, h₂])) (fun i => ?_) ?_
    · exact (he.shards i).keep (he.owned i) hlater fun _ k _ => by rw [hkv, h₃]
    · refine he.tables.extend fun c v hv => he.tables gid _ version_replay c v ?_
      rw [← h₄, ← hkv]
      exact hv
  cases hchange with
  | skip _ hperf hgc =>
    refine hsame rfl rfl rfl rfl ?_
    cases command with
    | op op => simp [executed, hperf op rfl]
    | config => rfl
    | migrate => rfl
    | gc => rfl
  | config config hn =>
    refine hquiet _ (he.owned.config hl hn) (fun i => (he.shards i).config he.owned hlaw hn) ?_ rfl
    refine he.tables.extend fun c v hv => he.tables gid _ version_replay c v ?_
    rw [hkv, (applyConfig_rest hn.tick).2.2.1] at hv
    exact hv
  | migrate m num missing asked =>
    exact hquiet _ (he.owned.migrate hlaw hb num missing)
      (AtPlace.migrate he.shards he.owned hlaw hb num missing asked hkv) (he.tables.migrate hb hkv)
      rfl
  | gc => exact hsame rfl rfl rfl rfl rfl
  | op op hperf =>
    obtain ⟨r, hr, rfl⟩ := hb
    have hnew := not_mem_order he.shards he.owned hperf
    refine ⟨place, [(gid, r)], he.owned.same (by rw [hkv]; rfl) (by rw [hkv]; rfl), ?_, ?_, ?_, ?_⟩
    · simpa using AtPlace.execute he.shards he.owned hperf
    · simpa using he.tables.execute he.shards he.owned hperf
    · simpa using he.linear.perform hr hnew
    · intro g
      rw [List.filter_append, List.map_append, he.groups g]
      by_cases hg : g = gid
      · subst hg
        rw [extended, Function.update_self, effects_concat]
        simp [executed, hperf]
      · rw [extended, Function.update_of_ne hg]
        simp [Ne.symm hg]

end Commit

/-! ### The system -/

namespace System

variable {ι : Type} [DecidableEq ι] {s s' : System ι}

/-- An update answers nothing. -/
lemma answered_update {order : List Request} {r : Request} {res : GoString}
    (h : store.Answered order r res) (hr : ∀ key, r.method ≠ .get key) : res = [] := by
  obtain ⟨before, rest, -, rfl⟩ := h
  obtain ⟨c, n, key | ⟨key, value⟩ | ⟨key, value⟩⟩ := r
  · exact absurd rfl (hr key)
  · rfl
  · rfl

omit [DecidableEq ι] in
/-- **An answer `OK` is the one that the order gives.** -/
lemma Sound.answered (hs : Sound H s) {place : Shard → Handover.Place Gid}
    {order : List (Gid × Request)} (he : Explains H s.logs s.clerks.history place order)
    {a : Request × Reply} (ha : s.Found a) (hok : a.2.err = .ok) :
    store.Answered (order.map Prod.snd) a.1 a.2.value := by
  obtain ⟨h, hh, htask, currOp, hreply⟩ := ha
  obtain ⟨kv₀, hv, -, hlast, -⟩ := (hs.replicas h.gid h.server).version
  have hissued : Action.call a.1 ∈ s.clerks.history := by
    have hb := hs.handlers h hh
    rw [htask] at hb
    obtain ⟨r, hr, heq⟩ := hb
    have := congrArg Op.request heq
    rw [request_op, request_op] at this
    rw [this]
    exact hr
  -- the table has the call that is asked about
  rw [hreply] at hok
  obtain ⟨hequal, v, hv', hcall⟩ := finish_err_ok_iff.1 hok
  have hval := finish_eq_accept hequal hv' hcall
  rw [← hreply] at hval
  rw [hlast] at hv'
  obtain ⟨r, hc, hn, hans⟩ := he.tables h.gid kv₀ hv _ v hv'
  obtain rfl : r = a.1 :=
    hs.numbered.unique r a.1 (he.linear.called r hans.mem) hissued hc (hn.trans hcall)
  rw [hval]
  unfold ShardKV.accept
  split
  · exact hans
  · rename_i hne
    rw [answered_update hans hne] at hans
    exact hans

/-- The order explains what the groups have done and what they have answered. -/
def Linear (H : History) (s : System ι) (order : List (Gid × Request)) : Prop :=
  (∃ place, Explains H s.logs s.clerks.history place order) ∧
    ∀ a ∈ s.answers, a.2.err = .ok → store.Answered (order.map Prod.snd) a.1 a.2.value

omit [DecidableEq ι] in
lemma linear_init : Linear H (init : System ι) [] := by
  refine ⟨⟨fun _ => .fresh, owned_init, fun i => ⟨fun r h => ?_, fun k _ => rfl⟩, ?_, .nil, ?_⟩, ?_⟩
  · exact absurd h List.not_mem_nil
  · rintro g kv ⟨before, hb, rfl⟩ c v hv
    rw [List.prefix_nil.1 hb] at hv
    cases hv
  · exact fun g => rfl
  · exact fun a h => absurd h List.not_mem_nil

/-- **One step** extends the order by at most what it executes. -/
lemma Linear.step {order : List (Gid × Request)} (hlin : Linear H s order) (hs : Sound H s)
    {e : Event ι} (h : step H s e = some s') : ∃ order', Linear H s' order' := by
  obtain ⟨⟨place, he⟩, hans⟩ := hlin
  cases shows_of_step h with
  | call c m hck hsame heq =>
    refine ⟨order, ⟨place, ?_⟩, by rw [hsame]; exact hans⟩
    rw [heq, Clerks.call_history hck]
    refine ⟨he.owned, he.shards, he.tables, ?_, he.groups⟩
    exact he.linear.call fun hmem => hs.numbered.fresh (he.linear.called _ hmem)
  | ret a ha hok hck hsame heq =>
    refine ⟨order, ⟨place, ?_⟩, by rw [hsame]; exact hans⟩
    rw [heq, Clerks.ret_history hck]
    exact ⟨he.owned, he.shards, he.tables, he.linear.ret (hans a ha hok), he.groups⟩
  | commit gid command hc hck hsame heq =>
    obtain ⟨place', more, he'⟩ := he.extend hs.lawful (hs.started gid command hc)
    refine ⟨order ++ more, ⟨place', by rw [heq, hck]; exact he'⟩, fun a ha hok => ?_⟩
    rw [hsame] at ha
    rw [List.map_append]
    exact (hans a ha hok).append _
  | answer hck hnew heq =>
    refine ⟨order, ⟨place, by rw [heq, hck]; exact he⟩, fun a ha hok => ?_⟩
    rcases hnew a ha hok with ha | ha
    · exact hans a ha hok
    · exact hs.answered he ha hok

lemma linear (h : Reachable (System.step H) anyStep (init : System ι) s) :
    ∃ order, Linear H s order :=
  h.invariant (P := fun s => ∃ order, Linear H s order) ⟨[], linear_init⟩
    fun _ _ _ hr ⟨_, hl⟩ _ hstep => hl.step (sound hr) hstep

/-! ### The theorem -/

/-- What the users of shardkv can rely on, for an order of all operations executed. -/
structure Correct (s : System ι) (order : List (Gid × Request)) : Prop where
  /-- The order is made of the executions of all groups, each in the order of its log. -/
  groups : ∀ g, (order.filter fun p => p.1 = g).map (fun p => ShardKV.op p.2) =
    effects g (s.groups g).log
  /-- What the clerks return is what one map answers, in this order. -/
  sequential : Linearization store s.clerks.history (order.map Prod.snd)
  /-- A call that has returned was executed once, on one group. -/
  exactlyOnce : ∀ r res, Action.ret r res ∈ s.clerks.history →
    ∃ g, (effects g (s.groups g).log).count (ShardKV.op r) = 1 ∧
      ∀ g' ≠ g, ShardKV.op r ∉ effects g' (s.groups g').log
  /-- A group has the values of that map for the shards it serves. -/
  values : ∀ g k, key2shard k ∈ (s.state g).myShards →
    (s.state g).data k = store.after (order.map Prod.snd) k

lemma op_injective : Function.Injective ShardKV.op :=
  Function.LeftInverse.injective request_op

omit [DecidableEq ι] in
lemma Linear.exactlyOnce {order : List (Gid × Request)} (hl : Linear H s order) {r : Request}
    (hr : r ∈ order.map Prod.snd) : ∃ g, (effects g (s.logs g)).count (ShardKV.op r) = 1 ∧
      ∀ g' ≠ g, ShardKV.op r ∉ effects g' (s.logs g') := by
  obtain ⟨⟨place, he⟩, -⟩ := hl
  obtain ⟨⟨g, r⟩, hmem, rfl⟩ := List.mem_map.1 hr
  refine ⟨g, ?_, fun g' hne hmem' => hne ?_⟩
  · rw [← he.groups g]
    refine List.count_eq_one_of_mem ?_ ?_
    · have hsub : ((order.filter fun p => p.1 = g).map Prod.snd).Sublist (order.map Prod.snd) :=
        List.filter_sublist.map _
      have := (hsub.nodup he.linear.once).map op_injective
      rwa [List.map_map] at this
    · exact List.mem_map.2 ⟨(g, r), List.mem_filter.2 ⟨hmem, by simp⟩, rfl⟩
  · rw [← he.groups g'] at hmem'
    obtain ⟨⟨k, r'⟩, hk, heq⟩ := List.mem_map.1 hmem'
    obtain ⟨hin, rfl⟩ : (k, r') ∈ order ∧ k = g' := by simpa using hk
    obtain rfl : r' = r := op_injective heq
    exact congrArg Prod.fst (List.inj_on_of_nodup_map he.linear.once hin hmem rfl)

/-- **shardkv is linearizable across reconfiguration, and every call that returns was executed
exactly once, on one group**, for any groups, replicas, clerks and configurations, and any
interleaving. -/
theorem linearizable_across_groups (h : Reachable (step H) anyStep (init : System ι) s) :
    ∃ order, s.Correct order := by
  obtain ⟨order, hl⟩ := linear h
  obtain ⟨place, he⟩ := hl.1
  refine ⟨order, he.groups, he.linear, fun r res hr => ?_, fun g k hk => ?_⟩
  · exact hl.exactlyOnce (he.linear.answers r res hr).mem
  · have hat := he.shards (key2shard k)
    rw [show place (key2shard k) = .held g from ((he.owned _).held g).1 hk, atPlace_held] at hat
    exact hat.1 k rfl

/-- A key is appended to in group `1`, and read in group `2` after its shard has moved there. -/
def movedKey : List (Event Unit) :=
  let w : Request := ⟨0, 0, .append [0] [7]⟩
  let r : Request := ⟨0, 1, .get [0]⟩
  [.queryConfig 1 () true, .commit 1 () 0, .call 0 w.method, .request w 1 (), .start 0 2 true,
    .commit 1 () 1, .notify 0, .answer 0, .queryConfig 1 () true, .commit 1 () 2,
    .queryConfig 2 () true, .commit 2 () 0, .queryConfig 2 () true, .commit 2 () 1,
    .tryReqShardData 2 () 0, .deliver 0 () true, .deliver 1 () true, .commit 2 () 2,
    .call 0 r.method, .request r 2 (), .start 0 4 true, .commit 2 () 3, .notify 0, .answer 1]

theorem linearizable_across_groups_moved_key : ∃ s : System Unit,
    Reachable (step twoGroups) anyStep init s ∧ s.clerks.history =
      [.call ⟨0, 0, .append [0] [7]⟩, .ret ⟨0, 0, .append [0] [7]⟩ [],
        .call ⟨0, 1, .get [0]⟩, .ret ⟨0, 1, .get [0]⟩ [7]] ∧ ∃ order, s.Correct order := by
  have hrun : (run (step twoGroups) init movedKey).map (fun s => s.clerks.history) = some
      [.call ⟨0, 0, .append [0] [7]⟩, .ret ⟨0, 0, .append [0] [7]⟩ [],
        .call ⟨0, 1, .get [0]⟩, .ret ⟨0, 1, .get [0]⟩ [7]] := by
    decide +kernel
  obtain ⟨s, hs, hhist⟩ := Option.map_eq_some_iff.1 hrun
  have hr : Reachable (step twoGroups) anyStep init s := Reachable.init.run hs
  exact ⟨s, hr, hhist, linearizable_across_groups hr⟩

end System

end RaftLabs.ShardKv
