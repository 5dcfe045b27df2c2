import RaftLabs.Lib.Trace
import RaftLabs.ShardCtrler.Balance

/-!
# The history of configurations

What the controller makes of its log: the configurations are numbered by their place and only
added to, one for every new command that is not a query (`history_append_only`).  A command that
goes out of range stops the controller for good, and a `Move` may name a group that is not there;
apart from that every configuration assigns the shards to its groups (`harmless_iff`).
-/

namespace RaftLabs.Ctrler

open Lib

/-- No index of the command lies outside what it indexes. -/
def Op.InRange (op : Op) : Prop :=
  match op.args with
  | .move shard _ => 0 ≤ shard ∧ shard < nShards
  | .query num => -1 ≤ num
  | _ => True

def Args.isQuery : Args → Bool
  | .query _ => true
  | _ => false

namespace ShardCtrler

variable {sc sc' : ShardCtrler} {op : Op} {config : Config} {log before after : List Op}

/-! ### One command -/

/-- A query that is executed: the configuration is stored as the answer. -/
def store (sc : ShardCtrler) (op : Op) (config : Config) : ShardCtrler :=
  { sc with lastOp := Function.update sc.lastOp op.clientId (some ⟨op.callId, some config⟩) }

/-- **Inversion of `execOp`**: a duplicate, a new configuration, or a query. -/
lemma execOp_cases (h : sc.execOp op = some sc') :
    sc.done op = true ∧ sc' = sc ∨
    sc.done op = false ∧ op.args.isQuery = false ∧
      (∃ config, sc.newConfig op.args = some config ∧ sc' = sc.append op config) ∨
    sc.done op = false ∧ ∃ num config, op.args = .query num ∧ sc.queried num = some config ∧
      sc' = sc.store op config := by
  unfold execOp at h
  cases hd : sc.done op with
  | true =>
    rw [if_pos hd] at h
    exact Or.inl ⟨rfl, (Option.some.inj h).symm⟩
  | false =>
    rw [if_neg (by rw [hd]; exact Bool.false_ne_true)] at h
    refine Or.inr ?_
    cases ha : op.args with
    | query num =>
      rw [ha] at h
      obtain ⟨config, hq, rfl⟩ := Option.map_eq_some_iff.1 h
      exact Or.inr ⟨rfl, num, config, rfl, hq, rfl⟩
    | join servers =>
      rw [ha] at h
      obtain ⟨config, hc, rfl⟩ := Option.map_eq_some_iff.1 h
      exact Or.inl ⟨rfl, rfl, config, hc, rfl⟩
    | leave gids =>
      rw [ha] at h
      obtain ⟨config, hc, rfl⟩ := Option.map_eq_some_iff.1 h
      exact Or.inl ⟨rfl, rfl, config, hc, rfl⟩
    | move shard gid =>
      rw [ha] at h
      obtain ⟨config, hc, rfl⟩ := Option.map_eq_some_iff.1 h
      exact Or.inl ⟨rfl, rfl, config, hc, rfl⟩

/-- A duplicate is skipped. -/
lemma execOp_of_done (h : sc.done op = true) : sc.execOp op = some sc := if_pos h

/-- A new command that is not a query makes a configuration. -/
lemma execOp_of_newConfig (h : sc.done op = false) (hq : op.args.isQuery = false) :
    sc.execOp op = (sc.newConfig op.args).map (sc.append op) := by
  unfold execOp
  rw [if_neg (by rw [h]; exact Bool.false_ne_true)]
  cases ha : op.args with
  | query => rw [ha] at hq; cases hq
  | join => rfl
  | leave => rfl
  | move => rfl

/-- A new query looks a configuration up. -/
lemma execOp_of_query {num : ℤ} (h : sc.done op = false) (ha : op.args = .query num) :
    sc.execOp op = (sc.queried num).map (sc.store op) := by
  unfold execOp
  rw [if_neg (by rw [h]; exact Bool.false_ne_true), ha]
  rfl

/-- The configuration of `execJoin`. -/
lemma newConfig_join (sc : ShardCtrler) (servers : Groups) : ∃ shards,
    sc.newConfig (.join servers) = some ⟨sc.configs.length, shards, sc.joinGroups servers⟩ ∧
      Config.Proper ⟨sc.configs.length, shards, sc.joinGroups servers⟩ :=
  makeShardBalance_eq_some _

/-- The configuration of `execLeave`. -/
lemma newConfig_leave (sc : ShardCtrler) (gids : List Gid) : ∃ shards,
    sc.newConfig (.leave gids) = some ⟨sc.configs.length, shards, sc.leaveGroups gids⟩ ∧
      Config.Proper ⟨sc.configs.length, shards, sc.leaveGroups gids⟩ :=
  makeShardBalance_eq_some _

/-- The configuration of `execMove`. -/
lemma newConfig_move {shard : ℤ} (gid : Gid) (h : 0 ≤ shard ∧ shard < nShards) :
    sc.newConfig (.move shard gid) = some ⟨sc.configs.length,
      Function.update sc.latest.shards ⟨shard.toNat, (Int.toNat_lt h.1).2 h.2⟩ gid,
      sc.latest.groups⟩ :=
  dif_pos h

/-- A new configuration has the next number. -/
lemma newConfig_num {args : Args} (h : sc.newConfig args = some config) :
    config.num = sc.configs.length := by
  cases args with
  | join servers =>
    obtain ⟨shards, hs, -⟩ := sc.newConfig_join servers
    rw [hs] at h
    cases h
    rfl
  | leave gids =>
    obtain ⟨shards, hs, -⟩ := sc.newConfig_leave gids
    rw [hs] at h
    cases h
    rfl
  | move shard gid =>
    rw [newConfig] at h
    split_ifs at h
    cases h
    rfl
  | query num => cases h

/-- What a query finds. -/
lemma queried_eq (sc : ShardCtrler) {num : ℤ} (h : -1 ≤ num) :
    ∃ config, sc.queried num = some config ∧
      (0 ≤ num → num.toNat < sc.configs.length → sc.configs[num.toNat]? = some config) ∧
      (0 ≤ num → sc.configs.length ≤ num.toNat → config = sc.latest) := by
  unfold queried
  split_ifs with h₁ h₂
  · refine ⟨sc.latest, rfl, fun h0 hlt => ?_, fun _ _ => rfl⟩
    omega
  · have hlt : num.toNat < sc.configs.length := by omega
    refine ⟨_, List.getElem?_eq_getElem hlt, fun _ _ => List.getElem?_eq_getElem hlt, fun _ hle => ?_⟩
    omega
  · omega

/-- **A command in range does not panic.** -/
lemma execOp_isSome (sc : ShardCtrler) (hr : op.InRange) : ∃ sc', sc.execOp op = some sc' := by
  cases hd : sc.done op with
  | true => exact ⟨sc, execOp_of_done hd⟩
  | false =>
    unfold Op.InRange at hr
    cases ha : op.args with
    | join servers =>
      obtain ⟨shards, hs, -⟩ := sc.newConfig_join servers
      exact ⟨_, by rw [execOp_of_newConfig hd (by rw [ha]; rfl), ha, hs]; rfl⟩
    | leave gids =>
      obtain ⟨shards, hs, -⟩ := sc.newConfig_leave gids
      exact ⟨_, by rw [execOp_of_newConfig hd (by rw [ha]; rfl), ha, hs]; rfl⟩
    | move shard gid =>
      rw [ha] at hr
      exact ⟨_, by rw [execOp_of_newConfig hd (by rw [ha]; rfl), ha, newConfig_move gid hr]; rfl⟩
    | query num =>
      rw [ha] at hr
      obtain ⟨config, hq, -⟩ := sc.queried_eq hr
      exact ⟨_, by rw [execOp_of_query hd ha, hq]; rfl⟩

/-- Configurations are only added. -/
lemma configs_execOp (h : sc.execOp op = some sc') : sc.configs <+: sc'.configs := by
  rcases execOp_cases h with ⟨-, rfl⟩ | ⟨-, -, config, -, rfl⟩ | ⟨-, num, config, -, -, rfl⟩
  · exact List.prefix_rfl
  · exact List.prefix_append _ _
  · exact List.prefix_rfl

/-! ### A whole log -/

/-- The controller after a log. -/
def replay (log : List Op) : Option ShardCtrler := run execOp init log

lemma replay_concat (log : List Op) (op : Op) :
    replay (log ++ [op]) = (replay log).bind fun sc => sc.execOp op :=
  run_concat execOp init log op

/-- The number of the command is above every number that its client has in the log. -/
def Fresh (before : List Op) (op : Op) : Prop :=
  ∀ op' ∈ before, op'.clientId = op.clientId → op'.callId < op.callId

instance : Decidable (Fresh before op) := inferInstanceAs (Decidable (∀ op' ∈ before, _ → _))

/-- The commands of a log that make a configuration: new ones, and no queries. -/
def appending (log : List Op) : List Op :=
  (log.zipIdx.filter fun p => Fresh (log.take p.2) p.1 ∧ p.1.args.isQuery = false).map Prod.fst

lemma appending_concat (log : List Op) (op : Op) : appending (log ++ [op]) =
    appending log ++ if Fresh log op ∧ op.args.isQuery = false then [op] else [] := by
  have hold : (log.zipIdx.filter fun p =>
      Fresh ((log ++ [op]).take p.2) p.1 ∧ p.1.args.isQuery = false) =
      log.zipIdx.filter fun p => Fresh (log.take p.2) p.1 ∧ p.1.args.isQuery = false := by
    refine List.filter_congr fun p hp => ?_
    have hlt : p.2 < log.length := by
      have := List.snd_lt_of_mem_zipIdx hp
      omega
    rw [List.take_append_of_le_length hlt.le]
  unfold appending
  rw [List.zipIdx_append, List.filter_append, List.map_append, hold]
  congr 1
  by_cases h : Fresh log op ∧ op.args.isQuery = false
  · simp [h]
  · simp [h]

/-- What the controller has made of a log. -/
structure Recorded (log : List Op) (sc : ShardCtrler) : Prop where
  numbered : ∀ (i : ℕ) (config : Config), sc.configs[i]? = some config → config.num = i
  counted : sc.configs.length = 1 + (appending log).length
  /-- The table has the highest number of every client. -/
  absent : ∀ c, sc.lastOp c = none → ∀ op ∈ log, op.clientId ≠ c
  highest : ∀ c v, sc.lastOp c = some v → (∃ op ∈ log, op.clientId = c ∧ op.callId = v.callId) ∧
    ∀ op ∈ log, op.clientId = c → op.callId ≤ v.callId

lemma recorded_init : Recorded [] init where
  numbered i config h := by
    cases i with
    | zero => cases h; rfl
    | succ i => simp [init] at h
  counted := rfl
  absent _ _ _ h := absurd h List.not_mem_nil
  highest _ _ h := nomatch h

/-- The controller skips what is not new. -/
lemma Recorded.done_iff (hr : Recorded log sc) : sc.done op = false ↔ Fresh log op := by
  unfold done
  cases hl : sc.lastOp op.clientId with
  | none =>
    refine ⟨fun _ op' hop' hc => absurd hc (hr.absent _ hl op' hop'), fun _ => rfl⟩
  | some v =>
    obtain ⟨⟨op', hop', hc, hk⟩, hmax⟩ := hr.highest _ v hl
    rw [decide_eq_false_iff_not, not_le]
    constructor
    · intro hlt op'' hop'' hc''
      exact (hmax op'' hop'' hc'').trans_lt hlt
    · intro hfresh
      rw [← hk]
      exact hfresh op' hop' hc

/-- A new command takes its client's place in the table. -/
lemma Recorded.table (hr : Recorded log sc) (hfresh : Fresh log op) {answer : Option Config}
    {lastOp : ℕ → Option LastOperation}
    (hl : lastOp = Function.update sc.lastOp op.clientId (some ⟨op.callId, answer⟩)) :
    (∀ c, lastOp c = none → ∀ op' ∈ log ++ [op], op'.clientId ≠ c) ∧
    ∀ c v, lastOp c = some v →
      (∃ op' ∈ log ++ [op], op'.clientId = c ∧ op'.callId = v.callId) ∧
      ∀ op' ∈ log ++ [op], op'.clientId = c → op'.callId ≤ v.callId := by
  subst hl
  constructor
  · intro c hc op' hop'
    by_cases hcc : c = op.clientId
    · subst hcc
      rw [Function.update_self] at hc
      cases hc
    · rw [Function.update_of_ne hcc] at hc
      rcases List.mem_append.1 hop' with hop' | hop'
      · exact hr.absent c hc op' hop'
      · rw [List.mem_singleton.1 hop']
        exact Ne.symm hcc
  · intro c v hc
    by_cases hcc : c = op.clientId
    · subst hcc
      rw [Function.update_self] at hc
      cases hc
      refine ⟨⟨op, by simp, rfl, rfl⟩, fun op' hop' hcl => ?_⟩
      rcases List.mem_append.1 hop' with hop' | hop'
      · exact (hfresh op' hop' hcl).le
      · rw [List.mem_singleton.1 hop']
    · rw [Function.update_of_ne hcc] at hc
      obtain ⟨⟨op', hop', hcl, hk⟩, hmax⟩ := hr.highest c v hc
      refine ⟨⟨op', List.mem_append_left _ hop', hcl, hk⟩, fun op'' hop'' hcl' => ?_⟩
      rcases List.mem_append.1 hop'' with hop'' | hop''
      · exact hmax op'' hop'' hcl'
      · rw [List.mem_singleton.1 hop''] at hcl'
        exact absurd hcl'.symm hcc

/-- **One command more.** -/
lemma Recorded.exec (hr : Recorded log sc) (h : sc.execOp op = some sc') :
    Recorded (log ++ [op]) sc' := by
  have hlen := appending_concat log op
  rcases execOp_cases h with ⟨hd, heq⟩ | ⟨hd, hq, config, hc, rfl⟩ | ⟨hd, num, config, ha, -, rfl⟩
  · -- a duplicate
    rw [heq]
    have hold : ¬ Fresh log op := fun hf => by
      rw [hr.done_iff.2 hf] at hd
      cases hd
    obtain ⟨v, hv, hle⟩ : ∃ v, sc.lastOp op.clientId = some v ∧ op.callId ≤ v.callId := by
      unfold done at hd
      split at hd
      · cases hd
      · exact ⟨_, ‹_›, of_decide_eq_true hd⟩
    refine ⟨hr.numbered, ?_, fun c hc op' hop' => ?_, fun c w hw => ?_⟩
    · rw [hlen, if_neg fun hf => hold hf.1, List.append_nil]
      exact hr.counted
    · rcases List.mem_append.1 hop' with hop' | hop'
      · exact hr.absent c hc op' hop'
      · rw [List.mem_singleton.1 hop']
        rintro rfl
        rw [hv] at hc
        cases hc
    · obtain ⟨⟨op', hop', hcl, hk⟩, hmax⟩ := hr.highest c w hw
      refine ⟨⟨op', List.mem_append_left _ hop', hcl, hk⟩, fun op'' hop'' hcl' => ?_⟩
      rcases List.mem_append.1 hop'' with hop'' | hop''
      · exact hmax op'' hop'' hcl'
      · rw [List.mem_singleton.1 hop''] at hcl' ⊢
        subst hcl'
        rw [hv] at hw
        cases hw
        exact hle
  · have hfresh := hr.done_iff.1 hd
    obtain ⟨habsent, hhighest⟩ := hr.table hfresh rfl
    refine ⟨fun i c hi => ?_, ?_, habsent, hhighest⟩
    · rcases Nat.lt_or_ge i sc.configs.length with hlt | hge
      · exact hr.numbered i c (by rwa [append, List.getElem?_append_left hlt] at hi)
      · rw [append, List.getElem?_append_right hge] at hi
        obtain rfl : i = sc.configs.length := by
          have := (List.getElem?_eq_some_iff.1 hi).1
          simp only [List.length_singleton] at this
          omega
        obtain rfl : config = c := by simpa using hi
        exact newConfig_num hc
    · rw [hlen, if_pos ⟨hfresh, hq⟩]
      have := hr.counted
      simp only [append, List.length_append, List.length_singleton]
      omega
  · have hfresh := hr.done_iff.1 hd
    obtain ⟨habsent, hhighest⟩ := hr.table hfresh rfl
    refine ⟨hr.numbered, ?_, habsent, hhighest⟩
    rw [hlen, if_neg fun hf => by rw [ha] at hf; exact absurd hf.2 (by simp [Args.isQuery]),
      List.append_nil]
    exact hr.counted

/-- **A whole log.** -/
lemma recorded_replay (h : replay log = some sc) : Recorded log sc := by
  induction log using List.reverseRecOn generalizing sc with
  | nil =>
    cases h
    exact recorded_init
  | append_singleton log op ih =>
    rw [replay_concat] at h
    obtain ⟨sc₀, h₀, hop⟩ := Option.bind_eq_some_iff.1 h
    exact (ih h₀).exec hop

/-- The controller gets through a log with all commands in range. -/
lemma replay_isSome (log : List Op) (h : ∀ op ∈ log, op.InRange) : ∃ sc, replay log = some sc := by
  induction log using List.reverseRecOn with
  | nil => exact ⟨init, rfl⟩
  | append_singleton log op ih =>
    obtain ⟨sc, hsc⟩ := ih fun op' hop' => h op' (List.mem_append_left _ hop')
    obtain ⟨sc', hsc'⟩ := sc.execOp_isSome (h op (by simp))
    exact ⟨sc', by rw [replay_concat, hsc]; exact hsc'⟩

/-- What has been made of an initial part of the log stays. -/
lemma configs_replay (h : replay (before ++ after) = some sc) :
    ∃ sc₀, replay before = some sc₀ ∧ sc₀.configs <+: sc.configs := by
  induction after using List.reverseRecOn generalizing sc with
  | nil => exact ⟨sc, by simpa using h, List.prefix_rfl⟩
  | append_singleton after op ih =>
    rw [← List.append_assoc, replay_concat] at h
    obtain ⟨sc₁, h₁, hop⟩ := Option.bind_eq_some_iff.1 h
    obtain ⟨sc₀, h₀, hpre⟩ := ih h₁
    exact ⟨sc₀, h₀, hpre.trans (configs_execOp hop)⟩

/-- **The history of the controller is append-only and exactly-once**: for every log in range, every
configuration has its place as its number and stays as it is, there is one for each new command that
is not a query, and a query is answered from the history as it then was. -/
theorem history_append_only (log : List Op) (hlog : ∀ op ∈ log, op.InRange) :
    ∃ sc, replay log = some sc ∧
      (∀ (i : ℕ) (config : Config), sc.configs[i]? = some config → config.num = i) ∧
      (∀ before after, log = before ++ after →
        ∃ sc₀, replay before = some sc₀ ∧ sc₀.configs <+: sc.configs) ∧
      sc.configs.length = 1 + (appending log).length ∧
      ∀ before op after num, log = before ++ op :: after → op.args = .query num → 0 ≤ num →
        Fresh before op → ∃ sc₀ sc₁ config, replay before = some sc₀ ∧
          replay (before ++ [op]) = some sc₁ ∧
          sc₁.lastOp op.clientId = some ⟨op.callId, some config⟩ ∧
          (num.toNat < sc₀.configs.length → sc.configs[num.toNat]? = some config) ∧
          (sc₀.configs.length ≤ num.toNat → sc₀.configs.getLast? = some config) := by
  obtain ⟨sc, hsc⟩ := replay_isSome log hlog
  have hr := recorded_replay hsc
  have hparts : ∀ before after, log = before ++ after →
      ∃ sc₀, replay before = some sc₀ ∧ sc₀.configs <+: sc.configs := by
    rintro before after rfl
    exact configs_replay hsc
  refine ⟨sc, hsc, hr.numbered, hparts, hr.counted, ?_⟩
  rintro before op after num hsplit ha h0 hfresh
  obtain ⟨sc₀, h₀, hpre⟩ := hparts before (op :: after) hsplit
  have hr₀ := recorded_replay h₀
  obtain ⟨config, hq, hin, hout⟩ := sc₀.queried_eq (show -1 ≤ num by omega)
  refine ⟨sc₀, sc₀.store op config, config, h₀, ?_, Function.update_self _ _ _, ?_, ?_⟩
  · rw [replay_concat, h₀, Option.bind_some, execOp_of_query (hr₀.done_iff.2 hfresh) ha, hq]
    rfl
  · intro hlt
    obtain ⟨rest, hrest⟩ := hpre
    rw [← hrest, List.getElem?_append_left hlt]
    exact hin h0 hlt
  · intro hle
    have hne : sc₀.configs ≠ [] := by
      intro hnil
      have := hr₀.counted
      rw [hnil, List.length_nil] at this
      omega
    rw [hout h0 hle, latest, List.getLastD_eq_getLast?, List.getLast?_eq_some_getLast hne]
    rfl

/-- The first group joins. -/
def firstJoin : Op := ⟨0, 1, .join (AList.singleton 1 [])⟩

/-- A `Join` that is committed twice, and a query. -/
def joinTwice : List Op := [firstJoin, firstJoin, ⟨7, 1, .query 1⟩]

theorem history_append_only_join_twice : ∃ sc, replay joinTwice = some sc ∧
    sc.configs.length = 2 ∧ ∃ sc₁ config, replay joinTwice = some sc₁ ∧
      sc₁.lastOp 7 = some ⟨1, some config⟩ ∧ sc.configs[1]? = some config := by
  obtain ⟨sc, hsc, -, -, hlen, hquery⟩ := history_append_only joinTwice (by
    intro op hop
    simp only [joinTwice, List.mem_cons, List.not_mem_nil, or_false] at hop
    rcases hop with rfl | rfl | rfl
    · trivial
    · trivial
    · show (-1 : ℤ) ≤ 1
      decide)
  have hlen' : sc.configs.length = 2 := hlen.trans (by decide)
  obtain ⟨sc₀, sc₁, config, h₀, h₁, hans, hin, -⟩ :=
    hquery (joinTwice.take 2) ⟨7, 1, .query 1⟩ [] 1 rfl rfl (by decide) (by decide)
  have h₀' : (replay (joinTwice.take 2)).map (fun sc => sc.configs.length) = some 2 := by
    decide +kernel
  rw [h₀] at h₀'
  have hlen₀ : sc₀.configs.length = 2 := Option.some.inj h₀'
  exact ⟨sc, hsc, hlen', sc₁, config, h₁, hans, hin (by rw [hlen₀]; decide)⟩

/-! ### Requests that do harm -/

/-- The gid may have shards: a group of the latest configuration, or the invalid gid if there is
none. -/
def Assignable (sc : ShardCtrler) (gid : Gid) : Prop :=
  gid ∈ sc.latest.groups ∨ sc.latest.groups.keys = [] ∧ gid = invalidGid

/-- The command is in range, and moves a shard only to a group that is there; or it is skipped. -/
def Harmless (sc : ShardCtrler) (op : Op) : Prop :=
  sc.done op = true ∨
    match op.args with
    | .move shard gid => (0 ≤ shard ∧ shard < nShards) ∧ sc.Assignable gid
    | .query num => -1 ≤ num
    | _ => True

/-- The command completes, and every configuration that it appends assigns the shards to its
groups. -/
def Survives (sc : ShardCtrler) (op : Op) : Prop :=
  ∃ sc', sc.execOp op = some sc' ∧ ∀ config ∈ sc'.configs.drop sc.configs.length, config.Proper

lemma latest_mem (h : sc.configs ≠ []) : sc.latest ∈ sc.configs := by
  rw [latest, List.getLastD_eq_getLast?, List.getLast?_eq_some_getLast h]
  exact List.getLast_mem h

/-- A query and a duplicate append nothing, the others one configuration. -/
lemma survives_iff : sc.Survives op ↔
    sc.done op = true ∨ sc.done op = false ∧
      ((∃ num, op.args = .query num ∧ ∃ config, sc.queried num = some config) ∨
        op.args.isQuery = false ∧ ∃ config, sc.newConfig op.args = some config ∧ config.Proper) := by
  constructor
  · rintro ⟨sc', h, hproper⟩
    rcases execOp_cases h with ⟨hd, -⟩ | ⟨hd, hq, config, hc, rfl⟩ | ⟨hd, num, config, ha, hq, -⟩
    · exact Or.inl hd
    · exact Or.inr ⟨hd, Or.inr ⟨hq, config, hc, hproper config (by simp [append])⟩⟩
    · exact Or.inr ⟨hd, Or.inl ⟨num, ha, config, hq⟩⟩
  · rintro (hd | ⟨hd, ⟨num, ha, config, hq⟩ | ⟨hq, config, hc, hproper⟩⟩)
    · exact ⟨sc, execOp_of_done hd, by simp⟩
    · exact ⟨_, by rw [execOp_of_query hd ha, hq]; rfl, by simp [store]⟩
    · refine ⟨_, by rw [execOp_of_newConfig hd hq, hc]; rfl, ?_⟩
      simpa [append] using hproper

/-- The configuration of a `Move`, when the one before assigns the shards to its groups. -/
lemma proper_move {shard : Fin nShards} {gid : Gid} {n : ℕ} (h : sc.latest.Proper) :
    Config.Proper ⟨n, Function.update sc.latest.shards shard gid, sc.latest.groups⟩ ↔
      sc.Assignable gid := by
  constructor
  · intro hp
    have := hp shard
    dsimp only at this
    rwa [Function.update_self] at this
  · intro hg i
    dsimp only
    by_cases hi : i = shard
    · subst hi
      rw [Function.update_self]
      exact hg
    · rw [Function.update_of_ne hi]
      exact h i

lemma queried_isSome {num : ℤ} (h : ∃ config, sc.queried num = some config) : -1 ≤ num := by
  obtain ⟨config, hq⟩ := h
  unfold queried at hq
  split_ifs at hq
  · omega
  · omega

/-- **One request**, in a state whose latest configuration is in order. -/
lemma survives_iff_harmless (hp : sc.latest.Proper) : sc.Survives op ↔ sc.Harmless op := by
  rw [survives_iff, Harmless]
  cases hd : sc.done op with
  | true => simp
  | false =>
    simp only [Bool.false_eq_true, true_and, false_or]
    cases ha : op.args with
    | join servers =>
      obtain ⟨shards, hs, hproper⟩ := sc.newConfig_join servers
      exact ⟨fun _ => trivial, fun _ => Or.inr ⟨rfl, _, hs, hproper⟩⟩
    | leave gids =>
      obtain ⟨shards, hs, hproper⟩ := sc.newConfig_leave gids
      exact ⟨fun _ => trivial, fun _ => Or.inr ⟨rfl, _, hs, hproper⟩⟩
    | move shard gid =>
      constructor
      · rintro (⟨num, h, -⟩ | ⟨-, config, hc, hproper⟩)
        · cases h
        · by_cases hr : 0 ≤ shard ∧ shard < nShards
          · rw [newConfig_move gid hr] at hc
            cases hc
            exact ⟨hr, (proper_move hp).1 hproper⟩
          · rw [newConfig, dif_neg hr] at hc
            cases hc
      · rintro ⟨hr, hg⟩
        exact Or.inr ⟨rfl, _, newConfig_move gid hr, (proper_move hp).2 hg⟩
    | query num =>
      constructor
      · rintro (⟨num', h, hq⟩ | ⟨h, -⟩)
        · cases h
          exact queried_isSome hq
        · cases h
      · intro h
        obtain ⟨config, hq, -⟩ := sc.queried_eq h
        exact Or.inl ⟨num, rfl, config, hq⟩

/-- While only harmless commands have been executed, every configuration is in order. -/
lemma proper_of_harmless (h : Reachable execOp Harmless init sc) :
    sc.configs ≠ [] ∧ ∀ config ∈ sc.configs, config.Proper := by
  refine h.invariant (P := fun sc => sc.configs ≠ [] ∧ ∀ config ∈ sc.configs, config.Proper)
    ⟨List.cons_ne_nil _ _, ?_⟩ fun sc op sc' _ ⟨hne, hp⟩ hok hstep => ?_
  · intro config hc
    rw [List.mem_singleton.1 hc]
    exact fun i => Or.inr ⟨rfl, rfl⟩
  · have hpre := configs_execOp hstep
    refine ⟨fun hnil => hne (List.prefix_nil.1 (hnil ▸ hpre)), fun config hc => ?_⟩
    obtain ⟨sc₁, h₁, hnew⟩ := (survives_iff_harmless (hp _ (latest_mem hne))).2 hok
    obtain rfl : sc₁ = sc' := Option.some.inj (h₁.symm.trans hstep)
    obtain ⟨rest, hrest⟩ := hpre
    rw [← hrest] at hc hnew
    rcases List.mem_append.1 hc with hc | hc
    · exact hp config hc
    · exact hnew config (by simpa using hc)

/-- **What a client can do to the controller**: while all commands have been harmless, every
configuration assigns the shards to its groups, and the next command completes and keeps it so
exactly if it is harmless. -/
theorem harmless_iff (h : Reachable execOp Harmless init sc) :
    (∀ config ∈ sc.configs, config.Proper) ∧ ∀ op, sc.Survives op ↔ sc.Harmless op := by
  obtain ⟨hne, hp⟩ := proper_of_harmless h
  exact ⟨hp, fun op => survives_iff_harmless (hp _ (latest_mem hne))⟩

/-- One harmless command; the next may be harmless or not. -/
theorem harmless_iff_first_join : ∃ sc, Reachable execOp Harmless init sc ∧
    sc.configs.length = 2 ∧ ∀ op, sc.Survives op ↔ sc.Harmless op := by
  have hrun : (execOp init firstJoin).map (fun sc => sc.configs.length) = some 2 := by
    decide +kernel
  obtain ⟨sc, hsc, hlen⟩ := Option.map_eq_some_iff.1 hrun
  have hr : Reachable execOp Harmless init sc := Reachable.init.step _ (Or.inr trivial) hsc
  exact ⟨sc, hr, hlen, (harmless_iff hr).2⟩

/-- **A `Move` of shard 10, and a `Query` of configuration -2, stop the controller**; a `Move` to a
group that has not joined leaves a shard without a group. -/
theorem one_request_poisons :
    execOp init ⟨0, 1, .move 10 1⟩ = none ∧ execOp init ⟨0, 1, .query (-2)⟩ = none ∧
    ∃ sc config, execOp init ⟨0, 1, .move 0 7⟩ = some sc ∧ sc.configs.getLast? = some config ∧
      ¬ config.Proper := by
  refine ⟨by decide, by decide, _, _, rfl, rfl, fun hp => ?_⟩
  rcases hp 0 with h | ⟨-, h⟩
  · exact absurd h (by decide)
  · exact absurd h (by decide)

end ShardCtrler

end RaftLabs.Ctrler
