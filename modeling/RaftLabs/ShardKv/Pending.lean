import RaftLabs.ShardCtrler.History
import RaftLabs.ShardKv.Ownership

/-!
# Requests for a shard can be answered

A group that gains a shard asks the group that had it in the configuration before.  There is no such
group if that configuration gave the shard to the invalid gid, or to a gid that never joined, and
then the request stays for good.  It does not come to that as long as the controller is never without
groups and moves shards only to groups that are there (`pending_answerable`).
-/

namespace RaftLabs.ShardKv

open Lib Ctrler ShardKV

/-- A `Join` or `Leave` leaves at least one group, and a `Move` goes to a group that is there; or the
command is skipped. -/
def KeepsGroups (sc : ShardCtrler) (op : Ctrler.Op) : Prop :=
  sc.done op = true ∨
    match op.args with
    | .join servers => (sc.joinGroups servers).keys ≠ []
    | .leave gids => (sc.leaveGroups gids).keys ≠ []
    | .move _ gid => gid ∈ sc.latest.groups
    | .query _ => True

instance : ∀ (sc : ShardCtrler) (op : Ctrler.Op), Decidable (KeepsGroups sc op)
  | sc, ⟨_, _, .join servers⟩ =>
    inferInstanceAs (Decidable (_ = true ∨ (sc.joinGroups servers).keys ≠ []))
  | sc, ⟨_, _, .leave gids⟩ =>
    inferInstanceAs (Decidable (_ = true ∨ (sc.leaveGroups gids).keys ≠ []))
  | sc, ⟨_, _, .move _ gid⟩ => inferInstanceAs (Decidable (_ = true ∨ gid ∈ sc.latest.groups))
  | _, ⟨_, _, .query _⟩ => inferInstanceAs (Decidable (_ = true ∨ True))

/-- The configurations that the controller serves after a log; without the log if the controller
does not get through it. -/
def served (log : List Ctrler.Op) : History where
  configs := ((ShardCtrler.replay log).getD ShardCtrler.init).configs
  first := by
    cases h : ShardCtrler.replay log with
    | none => rfl
    | some sc =>
      obtain ⟨sc₀, h₀, rest, hrest⟩ := @ShardCtrler.configs_replay sc [] log h
      cases h₀
      rw [Option.getD_some, ← hrest]
      rfl
  numbered := by
    cases h : ShardCtrler.replay log with
    | none => exact ShardCtrler.recorded_init.numbered
    | some sc => exact (ShardCtrler.recorded_replay h).numbered

/-- Every shard is assigned to a group of the configuration. -/
def Populated (config : Config) : Prop := ∀ i, config.shards i ∈ config.groups

lemma populated_of_proper {config : Config} (h : config.Proper) (hne : config.groups.keys ≠ []) :
    Populated config := fun i => (h i).resolve_right fun h => hne h.1

variable {sc sc' : ShardCtrler} {op : Ctrler.Op}

/-- A new configuration is populated, if the latest one is or there was none before it. -/
lemma populated_newConfig {config : Config} (hlatest : Populated sc.latest ∨ sc.latest = Config.zero)
    (hok : KeepsGroups sc op) (hd : sc.done op = false)
    (hc : sc.newConfig op.args = some config) : Populated config := by
  rw [KeepsGroups, hd] at hok
  replace hok := hok.resolve_left Bool.false_ne_true
  cases ha : op.args with
  | join servers =>
    rw [ha] at hc hok
    obtain ⟨shards, hs, hproper⟩ := sc.newConfig_join servers
    rw [hs] at hc
    cases hc
    exact populated_of_proper hproper hok
  | leave gids =>
    rw [ha] at hc hok
    obtain ⟨shards, hs, hproper⟩ := sc.newConfig_leave gids
    rw [hs] at hc
    cases hc
    exact populated_of_proper hproper hok
  | move shard gid =>
    rw [ha] at hc hok
    have hgid : gid ∈ sc.latest.groups := hok
    rcases hlatest with hlatest | hzero
    · by_cases hr : 0 ≤ shard ∧ shard < nShards
      · rw [ShardCtrler.newConfig_move gid hr] at hc
        cases hc
        intro i
        dsimp only
        by_cases hi : i = ⟨shard.toNat, (Int.toNat_lt hr.1).2 hr.2⟩
        · rw [hi, Function.update_self]
          exact hgid
        · rw [Function.update_of_ne hi]
          exact hlatest i
      · rw [ShardCtrler.newConfig, dif_neg hr] at hc
        cases hc
    · rw [hzero] at hgid
      exact absurd hgid (AList.notMem_empty gid)
  | query num =>
    rw [ha] at hc
    cases hc

/-- **The controller**: all configurations but the first are populated. -/
lemma populated_of_keepsGroups (h : Reachable ShardCtrler.execOp KeepsGroups ShardCtrler.init sc) :
    ∃ rest, sc.configs = Config.zero :: rest ∧ ∀ config ∈ rest, Populated config := by
  refine h.invariant
    (P := fun sc => ∃ rest, sc.configs = Config.zero :: rest ∧ ∀ config ∈ rest, Populated config)
    ⟨[], rfl, fun _ h => absurd h List.not_mem_nil⟩ fun sc op sc' _ ⟨rest, hrest, hp⟩ hok hstep => ?_
  rcases ShardCtrler.execOp_cases hstep with
    ⟨-, rfl⟩ | ⟨hd, -, config, hc, rfl⟩ | ⟨-, num, config, -, -, rfl⟩
  · exact ⟨rest, hrest, hp⟩
  · refine ⟨rest ++ [config], by rw [ShardCtrler.append, hrest]; rfl, fun c hmem => ?_⟩
    rcases List.mem_append.1 hmem with hmem | hmem
    · exact hp c hmem
    · rw [List.mem_singleton.1 hmem]
      refine populated_newConfig ?_ hok hd hc
      have hlatest : sc.latest ∈ Config.zero :: rest := by
        rw [← hrest]
        exact ShardCtrler.latest_mem (by rw [hrest]; exact List.cons_ne_nil _ _)
      rcases List.mem_cons.1 hlatest with hz | hmem
      · exact Or.inr hz
      · exact Or.inl (hp _ hmem)
  · exact ⟨rest, hrest, hp⟩

namespace System

variable {ι : Type} [DecidableEq ι] {H : History} {s : System ι}

/-- **Every pending request can be answered**, while the controller keeps its groups: whatever
configuration a group waits for a shard of, that configuration has a group for the shard. -/
theorem pending_answerable (hc : Reachable ShardCtrler.execOp KeepsGroups ShardCtrler.init sc)
    (hH : H.configs = sc.configs) (h : Reachable (step H) anyStep (init : System ι) s) (gid : Gid)
    (i : Shard) (n : ℕ)
    (hreq : (s.state gid).shardDataReqs i = some n ∨
      ∃ j, (s.replica gid j).kv.shardDataReqs i = some n) :
    (H.config n).shards i ∈ (H.config n).groups := by
  have hs := sound h
  obtain ⟨kv, ⟨before, hb, rfl⟩, hkv⟩ :
      ∃ kv, Version s.logs gid kv ∧ kv.shardDataReqs i = some n := by
    rcases hreq with hreq | ⟨j, hreq⟩
    · exact ⟨_, version_replay, hreq⟩
    · obtain ⟨kv₀, hv, -, -, -, -, -, hreqs, -⟩ := (hs.replicas gid j).version
      exact ⟨kv₀, hv, by rw [← hreqs]; exact hreq⟩
  have hbooks := ((hs.lawful gid).mono hb).books
  obtain ⟨hpos, hnum, -, -, -⟩ := hbooks.asked i n hkv
  have hlt : n < H.configs.length := by
    have := hbooks.num_lt
    omega
  obtain ⟨rest, hrest, hp⟩ := populated_of_keepsGroups hc
  refine hp (H.config n) ?_ i
  -- configuration `n` is not the first one
  obtain ⟨m, rfl⟩ : ∃ m, n = m + 1 := ⟨n - 1, by omega⟩
  rw [History.config, List.getD_eq_getElem?_getD]
  rw [hH, hrest] at hlt ⊢
  rw [List.getElem?_cons_succ, List.getElem?_eq_getElem (by simpa using hlt)]
  exact List.getElem_mem _

/-- Two groups join one after the other. -/
def twoJoins : List Ctrler.Op :=
  [⟨0, 1, .join (AList.singleton 1 [])⟩,
    ⟨0, 2, .join (AList.singleton 2 [])⟩]

theorem pending_answerable_two_joins : ∃ s : System Unit,
    Reachable (step (served twoJoins)) anyStep init s ∧
    (s.state 2).shardDataReqs 9 = some 1 ∧
    ((served twoJoins).config 1).shards 9 ∈ ((served twoJoins).config 1).groups := by
  have hrun : ((run (step (served twoJoins)) init
      [.queryConfig 2 () true, .commit 2 () 0, .queryConfig 2 () true, .commit 2 () 1]).map
        fun s : System Unit => decide ((s.state 2).shardDataReqs 9 = some 1)) = some true := by
    decide +kernel
  obtain ⟨s, hs, hreq⟩ := Option.map_eq_some_iff.1 hrun
  have hr : Reachable (step (served twoJoins)) anyStep init s := Reachable.init.run hs
  have hguard : (run (guarded ShardCtrler.execOp KeepsGroups) ShardCtrler.init twoJoins).isSome := by
    decide +kernel
  obtain ⟨sc, hsc⟩ := Option.isSome_iff_exists.1 hguard
  have hconfigs : (served twoJoins).configs = sc.configs := by
    have hreplay : ShardCtrler.replay twoJoins = some sc := run_of_guarded hsc
    simp only [served, hreplay, Option.getD_some]
  exact ⟨s, hr, of_decide_eq_true hreq, pending_answerable (Reachable.init.run_guarded hsc)
    hconfigs hr 2 9 1 (Or.inl (of_decide_eq_true hreq))⟩

/-- The only group leaves and joins again. -/
def rejoin : List Ctrler.Op :=
  [⟨0, 1, .join (AList.singleton 1 [])⟩, ⟨0, 2, .leave [1]⟩,
    ⟨0, 3, .join (AList.singleton 1 [])⟩]

/-- **A group that is alone, leaves and joins again waits for ever**: it asks for its shards of a
configuration that has no group for them. -/
theorem rejoin_not_answerable : ∃ s : System Unit,
    Reachable (step (served rejoin)) anyStep init s ∧
    (s.state 1).shardDataReqs 0 = some 2 ∧
    ((served rejoin).config 2).shards 0 ∉ ((served rejoin).config 2).groups := by
  have hrun : ((run (step (served rejoin)) init
      [.queryConfig 1 () true, .commit 1 () 0, .queryConfig 1 () true, .commit 1 () 1,
        .queryConfig 1 () true, .commit 1 () 2]).map
        fun s : System Unit => decide ((s.state 1).shardDataReqs 0 = some 2)) = some true := by
    decide +kernel
  obtain ⟨s, hs, hreq⟩ := Option.map_eq_some_iff.1 hrun
  exact ⟨s, Reachable.init.run hs, of_decide_eq_true hreq, by decide +kernel⟩

end System

end RaftLabs.ShardKv
