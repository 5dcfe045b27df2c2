import RaftLabs.ShardKv.System

/-!
# What the log of a group does

The commands of a log are not arbitrary: a configuration is started by a replica that has applied
the one before and waits for no data, and data of a shard only by one that has asked for it
(`Legit`).  Under that condition every state a replica goes through keeps its own books in order
(`Local`): the shards it serves and the shards it waits for are those that the configuration gives
to the group, the map has keys of served shards only, and what is set aside is of shards it had.
-/

namespace RaftLabs.ShardKv

open Lib Ctrler

/-- The group that configuration `n` assigns a shard to. -/
def History.owner (H : History) (i : Shard) (n : ℕ) : Gid := (H.config n).shards i

namespace ShardKV

variable {H : History} {gid : Gid} {kv kv' : ShardKV}

/-- The books of a replica are in order. -/
structure Local (H : History) (gid : Gid) (kv : ShardKV) : Prop where
  gid_eq : kv.gid = gid
  config : kv.config = H.config kv.config.num
  mine : ∀ i ∈ kv.myShards, 1 ≤ kv.config.num ∧ H.owner i kv.config.num = gid
  asked : ∀ i n, kv.shardDataReqs i = some n → 1 ≤ n ∧ n + 1 = kv.config.num ∧
    H.owner i (n + 1) = gid ∧ H.owner i n ≠ gid ∧ i ∉ kv.myShards
  /-- A shard that it should serve, and neither serves nor waits for, it has owned from the start. -/
  idle : ∀ i, 1 ≤ kv.config.num → H.owner i kv.config.num = gid → i ∉ kv.myShards →
    kv.shardDataReqs i = none → ∀ m ≤ kv.config.num, H.owner i m = gid
  keys : ∀ k, key2shard k ∉ kv.myShards → kv.data k = none
  aside : ∀ n i d, kv.dataForMigration n i = some d → n < kv.config.num ∧ H.owner i n = gid ∧
    ∀ k, key2shard k ≠ i → d k = none
  /-- What may be released elsewhere has arrived here. -/
  arrived : ∀ n i, (n, i) ∈ kv.gcList → H.owner i (n + 1) = gid ∧
    (n + 1 < kv.config.num ∨ n + 1 = kv.config.num ∧ i ∈ kv.myShards)

/-- The command may stand in the log of the group after a prefix that leads to this state. -/
def Legit (H : History) (gid : Gid) (kv : ShardKV) : Command → Prop
  | .config config => config.num ≤ kv.config.num ∨
      config.num = kv.config.num + 1 ∧ config = H.config config.num ∧ kv.noReqs
  | .migrate m => 1 ≤ m.configNum ∧ H.owner m.shard (m.configNum + 1) = gid ∧
      H.owner m.shard m.configNum ≠ gid ∧ ∀ k, key2shard k ≠ m.shard → m.data k = none
  | _ => True

/-! ### The parts of `execCommand` -/

/-- `kv.LastApplied ++`. -/
def tick (kv : ShardKV) : ShardKV := { kv with lastApplied := kv.lastApplied + 1 }

lemma exec_config (config : Config) :
    (kv.exec (.config config)).1 = kv.tick.execApplyConfig config := rfl

lemma exec_migrate (m : MigrateShardReply) :
    (kv.exec (.migrate m)).1 = kv.tick.execMigrationDataSync m := rfl

/-- An operation is executed, or nothing happens. -/
lemma exec_op (op : Op) :
    (kv.exec (.op op)).1 = if kv.performs op then kv.tick.perform op else kv.tick := by
  show (kv.tick.execOp op).1 = _
  have hdone : kv.tick.done op = kv.done op := rfl
  have hright : kv.tick.checkRightGroup op.key = kv.checkRightGroup op.key := rfl
  unfold execOp performs
  rw [hdone, hright]
  cases kv.done op <;> cases kv.checkRightGroup op.key <;> rfl

/-- A configuration that is not newer is skipped. -/
lemma execApplyConfig_of_le {config : Config} (h : config.num ≤ kv.config.num) :
    kv.execApplyConfig config = kv := if_pos h

/-- Data that does not belong to the last change of configuration is skipped. -/
lemma execMigrationDataSync_of_ne {m : MigrateShardReply} (h : m.configNum + 1 ≠ kv.config.num) :
    kv.execMigrationDataSync m = kv := if_pos h

/-- Data of a shard that the group serves is skipped. -/
lemma execMigrationDataSync_of_mem {m : MigrateShardReply} (hl : kv.Local H gid)
    (h : m.shard ∈ kv.myShards) : kv.execMigrationDataSync m = kv := by
  have hreq : kv.shardDataReqs m.shard = none := by
    by_contra hne
    obtain ⟨n, hn⟩ := Option.ne_none_iff_exists'.1 hne
    exact (hl.asked _ n hn).2.2.2.2 h
  unfold execMigrationDataSync settle
  simp [h, hreq]

/-- Data of a shard that the group waits for is taken over. -/
lemma execMigrationDataSync_of_notMem {m : MigrateShardReply} (hnum : m.configNum + 1 = kv.config.num)
    (h : m.shard ∉ kv.myShards) : kv.execMigrationDataSync m = (kv.adopt m).settle m := by
  unfold execMigrationDataSync
  simp [hnum, h]

lemma settle_fields (kv : ShardKV) (m : MigrateShardReply) :
    (kv.settle m).data = kv.data ∧ (kv.settle m).lastOp = kv.lastOp ∧
    (kv.settle m).config = kv.config ∧ (kv.settle m).myShards = kv.myShards ∧
    (kv.settle m).dataForMigration = kv.dataForMigration ∧ (kv.settle m).gid = kv.gid := by
  unfold settle
  split_ifs <;> exact ⟨rfl, rfl, rfl, rfl, rfl, rfl⟩

/-- After the data has come nothing more is asked for. -/
lemma settle_shardDataReqs (kv : ShardKV) (m : MigrateShardReply) (i : Shard) :
    (kv.settle m).shardDataReqs i = if i = m.shard then none else kv.shardDataReqs i := by
  unfold settle
  by_cases hi : i = m.shard
  · subst hi
    rw [if_pos rfl]
    split_ifs with h
    · simp
    · simpa using h
  · rw [if_neg hi]
    split_ifs with h
    · simp [hi]
    · rfl

lemma execGC_dataForMigration (kv : ShardKV) (cfgNum n : ℕ) (shard i : Shard) :
    (kv.execGC cfgNum shard).dataForMigration n i =
      if n = cfgNum ∧ i = shard then none else kv.dataForMigration n i := by
  unfold execGC
  by_cases hn : n = cfgNum
  · subst hn
    by_cases hi : i = shard <;> simp [hi]
  · simp [hn]

/-- What is left of `GCList` and what is new in it. -/
lemma mem_settle_gcList {m : MigrateShardReply} {n : ℕ} {i : Shard} :
    (n, i) ∈ (kv.settle m).gcList ↔ (n, i) ∈ kv.gcList ∨
      (n = m.configNum ∧ i = m.shard ∧ (kv.shardDataReqs m.shard).isSome) := by
  unfold settle
  split_ifs with h
  · simp [h, or_comm]
  · simp [h]

/-! ### The next configuration -/

section ApplyConfig

variable {config : Config}

/-- What `Legit` says of a configuration that is not skipped. -/
structure Next (H : History) (kv : ShardKV) (config : Config) : Prop where
  num : config.num = kv.config.num + 1
  eq : config = H.config config.num
  noReqs : ∀ i, kv.shardDataReqs i = none

lemma Next.lt (hn : Next H kv config) : kv.config.num < config.num := by
  rw [hn.num]
  exact Nat.lt_succ_self _

lemma Next.shards (hn : Next H kv config) (i : Shard) :
    config.shards i = H.owner i (kv.config.num + 1) := by
  rw [← hn.num]
  exact congrArg (fun c => c.shards i) hn.eq

lemma Local.shards (hl : kv.Local H gid) (i : Shard) :
    kv.config.shards i = H.owner i kv.config.num :=
  congrArg (fun c => c.shards i) hl.config

lemma Local.loses_iff (hl : kv.Local H gid) (hn : Next H kv config) (i : Shard) :
    Loses kv.gid kv.config config i ↔
      H.owner i kv.config.num = gid ∧ H.owner i (kv.config.num + 1) ≠ gid := by
  rw [Loses, hl.gid_eq, hl.shards, hn.shards]

lemma Local.gains_iff (hl : kv.Local H gid) (hn : Next H kv config) (i : Shard) :
    Gains kv.gid kv.config config i ↔
      H.owner i kv.config.num ≠ gid ∧ H.owner i (kv.config.num + 1) = gid := by
  rw [Gains, hl.gid_eq, hl.shards, hn.shards]

/-- A shard that is served after the step was served before, or had no owner before. -/
lemma Local.mem_myShards_applyConfig (hl : kv.Local H gid) (hn : Next H kv config) (i : Shard) :
    i ∈ (kv.execApplyConfig config).myShards ↔ H.owner i (kv.config.num + 1) = gid ∧
      (i ∈ kv.myShards ∨ kv.config.num = 0 ∧ H.owner i 0 ≠ gid) := by
  rw [execApplyConfig_eq hn.lt]
  simp only [Finset.mem_filter, Finset.mem_univ, true_and, hl.loses_iff hn, hl.gains_iff hn]
  constructor
  · rintro ⟨hkeep, hi | ⟨⟨hold, hnew⟩, h0⟩⟩
    · exact ⟨by_contra fun h => hkeep ⟨(hl.mine i hi).2, h⟩, Or.inl hi⟩
    · exact ⟨hnew, Or.inr ⟨h0, h0 ▸ hold⟩⟩
  · rintro ⟨hnew, hi | ⟨h0, hold⟩⟩
    · exact ⟨fun h => h.2 hnew, Or.inl hi⟩
    · exact ⟨fun h => h.2 hnew, Or.inr ⟨⟨h0 ▸ hold, hnew⟩, h0⟩⟩

/-- What is asked for after the step. -/
lemma Local.shardDataReqs_applyConfig (hl : kv.Local H gid) (hn : Next H kv config) (i : Shard)
    (n : ℕ) : (kv.execApplyConfig config).shardDataReqs i = some n ↔
      n = kv.config.num ∧ 1 ≤ n ∧ H.owner i n ≠ gid ∧ H.owner i (n + 1) = gid := by
  rw [execApplyConfig_eq hn.lt]
  simp only [hl.gains_iff hn, hn.noReqs]
  constructor
  · intro h
    split_ifs at h with hg
    obtain rfl : kv.config.num = n := Option.some.inj h
    exact ⟨rfl, Nat.pos_of_ne_zero hg.2, hg.1.1, hg.1.2⟩
  · rintro ⟨rfl, h1, hold, hnew⟩
    rw [if_pos ⟨⟨hold, hnew⟩, Nat.pos_iff_ne_zero.1 h1⟩]

/-- The map after the step: the lost shards are gone from it. -/
lemma Local.data_applyConfig (hl : kv.Local H gid) (hn : Next H kv config) (k : GoString) :
    (kv.execApplyConfig config).data k =
      if H.owner (key2shard k) kv.config.num = gid ∧ H.owner (key2shard k) (kv.config.num + 1) ≠ gid
      then none else kv.data k := by
  rw [execApplyConfig_eq hn.lt]
  exact if_congr (hl.loses_iff hn _) rfl rfl

/-- What is set aside after the step: the lost shards have been added. -/
lemma Local.dataForMigration_applyConfig (hl : kv.Local H gid) (hn : Next H kv config) (n : ℕ)
    (i : Shard) : (kv.execApplyConfig config).dataForMigration n i =
      if n = kv.config.num ∧ H.owner i n = gid ∧ H.owner i (n + 1) ≠ gid then
        some fun k => if key2shard k = i then kv.data k else none
      else kv.dataForMigration n i := by
  rw [execApplyConfig_eq hn.lt]
  refine if_congr (and_congr_right ?_) rfl rfl
  rintro rfl
  exact hl.loses_iff hn i

lemma applyConfig_rest (hn : Next H kv config) :
    (kv.execApplyConfig config).config = config ∧ (kv.execApplyConfig config).gid = kv.gid ∧
    (kv.execApplyConfig config).lastOp = kv.lastOp ∧
    (kv.execApplyConfig config).gcList = kv.gcList := by
  rw [execApplyConfig_eq hn.lt]
  exact ⟨rfl, rfl, rfl, rfl⟩

end ApplyConfig

/-! ### What a command can do -/

/-- The five ways in which a command that may stand in the log changes the state. -/
inductive Change (H : History) (gid : Gid) (kv : ShardKV) : Command → ShardKV → Prop
  | skip (command : Command) (h : ∀ op, command = .op op → kv.performs op = false)
      (hgc : ∀ n i, command ≠ .gc n i) : Change H gid kv command kv.tick
  | config (config : Config) (h : Next H kv config) :
      Change H gid kv (.config config) (kv.tick.execApplyConfig config)
  | migrate (m : MigrateShardReply) (num : m.configNum + 1 = kv.config.num)
      (missing : m.shard ∉ kv.myShards) (asked : kv.shardDataReqs m.shard = some m.configNum) :
      Change H gid kv (.migrate m) ((kv.tick.adopt m).settle m)
  | gc (cfgNum : ℕ) (shard : Shard) :
      Change H gid kv (.gc cfgNum shard) (kv.tick.execGC cfgNum shard)
  | op (op : Op) (h : kv.performs op) : Change H gid kv (.op op) (kv.tick.perform op)

lemma Local.tick (hl : kv.Local H gid) : kv.tick.Local H gid :=
  ⟨hl.gid_eq, hl.config, hl.mine, hl.asked, hl.idle, hl.keys, hl.aside, hl.arrived⟩

lemma Next.tick {config : Config} (hn : Next H kv config) : Next H kv.tick config :=
  ⟨hn.num, hn.eq, hn.noReqs⟩

/-- **Inversion of `execCommand`**, for the commands that may stand in the log. -/
lemma Local.change (hl : kv.Local H gid) {command : Command} (hc : Legit H gid kv command) :
    Change H gid kv command (kv.exec command).1 := by
  cases command with
  | op op =>
    rw [exec_op]
    cases h : kv.performs op with
    | true => exact .op op h
    | false =>
      refine .skip _ ?_ ?_
      · rintro op' he
        cases he
        exact h
      · exact fun _ _ he => nomatch he
  | config config =>
    rw [exec_config]
    rcases hc with hle | ⟨hnum, heq, hreqs⟩
    · rw [execApplyConfig_of_le (show config.num ≤ kv.tick.config.num from hle)]
      exact .skip _ (fun _ he => nomatch he) (fun _ _ he => nomatch he)
    · exact .config config ⟨hnum, heq, by simpa [noReqs] using hreqs⟩
  | migrate m =>
    rw [exec_migrate]
    obtain ⟨-, hnext, hother, -⟩ := hc
    by_cases hnum : m.configNum + 1 = kv.config.num
    · by_cases hmem : m.shard ∈ kv.myShards
      · rw [execMigrationDataSync_of_mem hl.tick hmem]
        exact .skip _ (fun _ he => nomatch he) (fun _ _ he => nomatch he)
      · rw [execMigrationDataSync_of_notMem (show _ = kv.tick.config.num from hnum) hmem]
        refine .migrate m hnum hmem ?_
        cases hreq : kv.shardDataReqs m.shard with
        | none =>
          -- a group that has owned the shard from the start has owned it in that configuration
          refine absurd (hl.idle m.shard (by omega) ?_ hmem hreq m.configNum (by omega)) hother
          rw [← hnum]
          exact hnext
        | some n =>
          have := (hl.asked m.shard n hreq).2.1
          rw [show n = m.configNum by omega]
    · rw [execMigrationDataSync_of_ne (show _ ≠ kv.tick.config.num from hnum)]
      exact .skip _ (fun _ he => nomatch he) (fun _ _ he => nomatch he)
  | gc cfgNum shard => exact .gc cfgNum shard

/-! ### The books stay in order -/

lemma local_init (H : History) (gid : Gid) : (ShardKV.init gid).Local H gid where
  gid_eq := rfl
  config := by
    show Config.zero = H.configs.getD 0 Config.zero
    rw [List.getD_eq_getElem?_getD, H.first]
    rfl
  mine i h := absurd h (Finset.notMem_empty i)
  asked _ _ h := nomatch h
  idle _ h := absurd h (Nat.not_succ_le_zero 0)
  keys _ _ := rfl
  aside _ _ _ h := nomatch h
  arrived _ _ h := absurd h (Finset.notMem_empty _)

/-- The next configuration. -/
lemma Local.applyConfig (hl : kv.Local H gid) {config : Config} (hn : Next H kv config) :
    (kv.execApplyConfig config).Local H gid := by
  obtain ⟨hcfg, hgid, -, hgc⟩ := applyConfig_rest hn
  have hnum : (kv.execApplyConfig config).config.num = kv.config.num + 1 := by rw [hcfg, hn.num]
  constructor
  · rw [hgid, hl.gid_eq]
  · rw [hcfg]
    exact hn.eq
  · intro i hi
    rw [hnum]
    exact ⟨by omega, ((hl.mem_myShards_applyConfig hn i).1 hi).1⟩
  · intro i n hi
    obtain ⟨rfl, h1, hold, hnew⟩ := (hl.shardDataReqs_applyConfig hn i n).1 hi
    refine ⟨h1, hnum.symm, hnew, hold, fun hmem => ?_⟩
    rcases ((hl.mem_myShards_applyConfig hn i).1 hmem).2 with hmem | ⟨h0, -⟩
    · exact hold (hl.mine i hmem).2
    · omega
  · intro i _ hown hmem hreq m hm
    rw [hnum] at hown hm
    have hmem' : i ∉ kv.myShards ∧ (kv.config.num = 0 → H.owner i 0 = gid) := by
      constructor
      · exact fun h => hmem ((hl.mem_myShards_applyConfig hn i).2 ⟨hown, Or.inl h⟩)
      · intro h0
        by_contra hne
        exact hmem ((hl.mem_myShards_applyConfig hn i).2 ⟨hown, Or.inr ⟨h0, hne⟩⟩)
    -- it was not asked for, so the group had it before, and there too without serving it
    have hold : H.owner i kv.config.num = gid := by
      by_contra hne
      rcases Nat.eq_zero_or_pos kv.config.num with h0 | hpos
      · rw [h0] at hne
        exact hne (hmem'.2 h0)
      · rw [(hl.shardDataReqs_applyConfig hn i _).2 ⟨rfl, hpos, hne, hown⟩] at hreq
        cases hreq
    rcases Nat.lt_or_ge kv.config.num m with hlt | hge
    · obtain rfl : m = kv.config.num + 1 := by omega
      exact hown
    · rcases Nat.eq_zero_or_pos kv.config.num with h0 | hpos
      · obtain rfl : m = kv.config.num := by omega
        exact hold
      · exact hl.idle i hpos hold hmem'.1 (hn.noReqs i) m hge
  · intro k hk
    rw [hl.data_applyConfig hn]
    split_ifs with hlose
    · rfl
    · refine hl.keys k fun hmem => hk ((hl.mem_myShards_applyConfig hn _).2 ⟨?_, Or.inl hmem⟩)
      by_contra hne
      exact hlose ⟨(hl.mine _ hmem).2, hne⟩
  · intro n i d hd
    rw [hl.dataForMigration_applyConfig hn] at hd
    rw [hnum]
    split_ifs at hd with hi
    · obtain ⟨rfl, hown, -⟩ := hi
      cases hd
      exact ⟨by omega, hown, fun k hk => by simp [hk]⟩
    · obtain ⟨h₁, h₂, h₃⟩ := hl.aside n i d hd
      exact ⟨by omega, h₂, h₃⟩
  · intro n i hi
    rw [hgc] at hi
    rw [hnum]
    obtain ⟨hown, hlt | ⟨heq, -⟩⟩ := hl.arrived n i hi
    · exact ⟨hown, Or.inl (by omega)⟩
    · exact ⟨hown, Or.inl (by omega)⟩

/-- Data of a shard arrives. -/
lemma Local.migrate (hl : kv.Local H gid) {m : MigrateShardReply}
    (hc : Legit H gid kv (.migrate m)) (hnum : m.configNum + 1 = kv.config.num) :
    ((kv.adopt m).settle m).Local H gid := by
  obtain ⟨hdata, -, hcfg, hmy, hdfm, hgid⟩ := (kv.adopt m).settle_fields m
  have hreqs := (kv.adopt m).settle_shardDataReqs m
  have hmem : ∀ i, i ∈ ((kv.adopt m).settle m).myShards ↔ i = m.shard ∨ i ∈ kv.myShards := by
    intro i
    rw [hmy]
    exact Finset.mem_insert
  obtain ⟨hpos, hnext, -, hkeys⟩ := hc
  constructor
  · rw [hgid]
    exact hl.gid_eq
  · rw [hcfg]
    exact hl.config
  · intro i hi
    rw [hcfg]
    rcases (hmem i).1 hi with rfl | hi
    · exact ⟨show 1 ≤ kv.config.num by omega, show H.owner m.shard kv.config.num = gid by
        rw [← hnum]; exact hnext⟩
    · exact hl.mine i hi
  · intro i n hi
    rw [hreqs] at hi
    split_ifs at hi with him
    obtain ⟨h₁, h₂, h₃, h₄, h₅⟩ := hl.asked i n hi
    rw [hcfg]
    exact ⟨h₁, h₂, h₃, h₄, fun h => ((hmem i).1 h).elim him h₅⟩
  · intro i h1 hown hi hreq
    rw [hcfg] at h1 hown ⊢
    have hi' : i ≠ m.shard ∧ i ∉ kv.myShards := by simpa [hmem, not_or] using hi
    rw [hreqs, if_neg hi'.1] at hreq
    exact hl.idle i h1 hown hi'.2 hreq
  · intro k hk
    have hk' : key2shard k ≠ m.shard ∧ key2shard k ∉ kv.myShards := by
      simpa [hmem, not_or] using hk
    rw [hdata]
    show (m.data k).or (kv.data k) = none
    rw [hkeys k hk'.1, hl.keys k hk'.2]
    rfl
  · intro n i d hd
    rw [hdfm] at hd
    rw [hcfg]
    exact hl.aside n i d hd
  · intro n i hi
    rw [hcfg]
    rcases mem_settle_gcList.1 hi with hi | ⟨rfl, rfl, -⟩
    · obtain ⟨hown, hlt | ⟨heq, hi⟩⟩ := hl.arrived n i hi
      · exact ⟨hown, Or.inl hlt⟩
      · exact ⟨hown, Or.inr ⟨heq, (hmem i).2 (Or.inr hi)⟩⟩
    · exact ⟨hnext, Or.inr ⟨hnum, (hmem m.shard).2 (Or.inl rfl)⟩⟩

/-- Data that has been handed over is released. -/
lemma Local.execGC (hl : kv.Local H gid) (cfgNum : ℕ) (shard : Shard) :
    (kv.execGC cfgNum shard).Local H gid := by
  refine ⟨hl.gid_eq, hl.config, hl.mine, hl.asked, hl.idle, hl.keys, fun n i d hd => ?_, hl.arrived⟩
  rw [execGC_dataForMigration] at hd
  split_ifs at hd
  exact hl.aside n i d hd

/-- Only the key of an operation changes. -/
lemma perform_data_of_ne {op : Op} {k : GoString} (h : k ≠ op.key) :
    (kv.perform op).data k = kv.data k := by
  unfold perform
  cases op.opType <;> simp [h]

/-- An operation is executed. -/
lemma Local.perform (hl : kv.Local H gid) {op : Op} (h : kv.checkRightGroup op.key) :
    (kv.perform op).Local H gid := by
  refine ⟨hl.gid_eq, hl.config, hl.mine, hl.asked, hl.idle, fun k hk => ?_, hl.aside, hl.arrived⟩
  have hmem : key2shard op.key ∈ kv.myShards := by simpa [checkRightGroup] using h
  have hne : k ≠ op.key := by
    rintro rfl
    exact hk hmem
  rw [perform_data_of_ne hne]
  exact hl.keys k hk

/-- **One command** that may stand in the log. -/
theorem Local.exec (hl : kv.Local H gid) {command : Command} (hc : Legit H gid kv command) :
    (kv.exec command).1.Local H gid := by
  have hchange := hl.change hc
  generalize (kv.exec command).1 = kv' at hchange
  cases hchange with
  | skip => exact hl.tick
  | config config h => exact hl.tick.applyConfig h.tick
  | migrate m num => exact hl.tick.migrate hc num
  | gc cfgNum shard => exact hl.tick.execGC cfgNum shard
  | op op h => exact hl.tick.perform (by simp [performs] at h; exact h.2)

/-! ### The books and the configuration -/

/-- The books match the configuration: the shards that are served and those that are waited for, by
the number of the configuration before, are apart and together all that the configuration gives to
the group, and the map has keys of served shards only. -/
structure BooksMatch (kv : ShardKV) (gid : Gid) : Prop where
  apart : ∀ i ∈ kv.myShards, kv.shardDataReqs i = none
  together : ∀ i, i ∈ kv.myShards ∨ kv.shardDataReqs i ≠ none ↔ kv.config.shards i = gid
  previous : ∀ i n, kv.shardDataReqs i = some n → n + 1 = kv.config.num
  keys : ∀ k, kv.data k ≠ none → key2shard k ∈ kv.myShards

/-- Configuration `0` gives nothing to a group with a valid number. -/
lemma owner_zero_ne (H : History) (hgid : gid ≠ invalidGid) (i : Shard) : H.owner i 0 ≠ gid := by
  have h0 : H.config 0 = Config.zero := by
    rw [History.config, List.getD_eq_getElem?_getD, H.first]
    rfl
  rw [History.owner, h0]
  exact hgid.symm

lemma Local.booksMatch (hl : kv.Local H gid) (hgid : gid ≠ invalidGid) : kv.BooksMatch gid where
  apart i hi := by
    by_contra hne
    obtain ⟨n, hn⟩ := Option.ne_none_iff_exists'.1 hne
    exact (hl.asked i n hn).2.2.2.2 hi
  together i := by
    rw [hl.shards]
    constructor
    · rintro (hi | hne)
      · exact (hl.mine i hi).2
      · obtain ⟨n, hn⟩ := Option.ne_none_iff_exists'.1 hne
        obtain ⟨-, hnum, hown, -⟩ := hl.asked i n hn
        rw [← hnum]
        exact hown
    · intro hown
      by_contra hnot
      push Not at hnot
      -- it would have owned the shard from the start
      rcases Nat.eq_zero_or_pos kv.config.num with h0 | hpos
      · exact owner_zero_ne H hgid i (h0 ▸ hown)
      · exact owner_zero_ne H hgid i (hl.idle i hpos hown hnot.1 hnot.2 0 (Nat.zero_le _))
  previous i n hn := (hl.asked i n hn).2.1
  keys k hk := by
    by_contra hmem
    exact hk (hl.keys k hmem)

end ShardKV

end RaftLabs.ShardKv
