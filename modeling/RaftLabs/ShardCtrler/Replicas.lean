import RaftLabs.Lib.Ranging
import RaftLabs.ShardCtrler.History

/-!
# Replicas that range over their maps in different orders

Go ranges over a map in an order of its own at every loop.  Here the commands of the controller take
these orders as an argument, and a replica is free to choose them anew for every command of its log
(`Applies`).  The sort by gid in `makeShardBalance` is all that stands between the order of a loop
and the shards; it suffices: seen as maps, the configurations and the stored answers are those of
`execOp` (`Applies.view`), so any two replicas agree (`replicas_agree`).
-/

namespace RaftLabs.Ctrler

open Lib

/-! ### The commands with the orders of their loops -/

/-- The orders in which one command ranges over its maps. -/
structure Orders where
  /-- In `cloneMap`. -/
  cloned : List (Sigma fun _ : Gid => List GoString)
  /-- Over `args.Servers` in `execJoin`. -/
  joined : List (Sigma fun _ : Gid => List GoString)
  /-- Over `config.Groups` in `makeShardBalance`. -/
  balanced : List Gid

/-- `cloneMap`. -/
def cloneMap (order : List (Sigma fun _ : Gid => List GoString)) : Groups := insertAll order ∅

/-- The groups with the shards they keep, collected in the order of the loop, then sorted by gid. -/
def keptIn (order : List Gid) (config : Config) : List (Gid × ℕ) :=
  (order.map fun gid => (gid, (surplus config).cnt gid)).insertionSort fun v w => v.1 ≤ w.1

/-- `makeShardBalance`. -/
def makeShardBalanceIn (order : List Gid) (config : Config) : Option Config :=
  let groupNum := config.groups.keys.length
  if groupNum = 0 then some { config with shards := fun _ => invalidGid }
  else
    let sp := surplus config
    (Handout.visitAll (nShards / groupNum) (keptIn order config)
      ⟨config.shards, sp.shards, sp.r⟩).map fun ho => { config with shards := ho.assigned }

namespace Orders

variable (o : Orders)

/-- The groups after `execJoin`. -/
def joinGroups : Groups := insertAll o.joined (cloneMap o.cloned)

/-- The groups after `execLeave`. -/
def leaveGroups (gids : List Gid) : Groups := eraseAll gids (cloneMap o.cloned)

/-- The orders are orders of the maps that the command ranges over. -/
def Range (sc : ShardCtrler) : Args → Prop
  | .join servers =>
    o.cloned.Perm sc.latest.groups.entries ∧ o.joined.Perm servers.entries ∧
      o.balanced.Perm o.joinGroups.keys
  | .leave gids =>
    o.cloned.Perm sc.latest.groups.entries ∧ o.balanced.Perm (o.leaveGroups gids).keys
  | .move _ _ => o.cloned.Perm sc.latest.groups.entries
  | .query num => ∀ config, sc.queried num = some config → o.cloned.Perm config.groups.entries

end Orders

namespace ShardCtrler

/-- The new configuration of `execJoin`, `execLeave` and `execMove`. -/
def newConfigIn (sc : ShardCtrler) (o : Orders) : Args → Option Config
  | .join _ => makeShardBalanceIn o.balanced ⟨sc.configs.length, sc.latest.shards, o.joinGroups⟩
  | .leave gids =>
    makeShardBalanceIn o.balanced ⟨sc.configs.length, sc.latest.shards, o.leaveGroups gids⟩
  | .move shard gid =>
    -- no order is read beside that of the clone
    (sc.newConfig (.move shard gid)).map fun config => { config with groups := cloneMap o.cloned }
  | .query _ => none

/-- `CloneConfig` of the configuration that `execQuery` answers with. -/
def queriedIn (sc : ShardCtrler) (o : Orders) (num : ℤ) : Option Config :=
  (sc.queried num).map fun config => { config with groups := cloneMap o.cloned }

/-- `execOp`. -/
def execOpIn (sc : ShardCtrler) (o : Orders) (op : Op) : Option ShardCtrler :=
  if sc.done op then some sc
  else
    match op.args with
    | .query num => (sc.queriedIn o num).map (sc.store op)
    | args => (sc.newConfigIn o args).map (sc.append op)

end ShardCtrler

/-- A replica applies its log, each new command with orders of its own; `none` is a panic. -/
inductive Applies : ShardCtrler → List Op → Option ShardCtrler → Prop
  | nil (sc : ShardCtrler) : Applies sc [] (some sc)
  | panic {sc : ShardCtrler} {op : Op} (o : Orders) (log : List Op)
      (ho : sc.done op = false → o.Range sc op.args) (h : sc.execOpIn o op = none) :
      Applies sc (op :: log) none
  | cons {sc sc' : ShardCtrler} {op : Op} {log : List Op} {r : Option ShardCtrler} (o : Orders)
      (ho : sc.done op = false → o.Range sc op.args) (h : sc.execOpIn o op = some sc')
      (hr : Applies sc' log r) : Applies sc (op :: log) r

/-! ### What two replicas have in common -/

/-- A configuration whose groups are a map, not a list of entries in some order. -/
structure MapConfig where
  num : ℕ
  shards : Fin nShards → Gid
  groups : Finmap fun _ : Gid => List GoString

def Config.view (config : Config) : MapConfig :=
  ⟨config.num, config.shards, config.groups.toFinmap⟩

/-- The configurations and, by client, the call and the stored answer of `lastOp`. -/
structure MapCtrler where
  configs : List MapConfig
  lastOp : ℕ → Option (ℕ × Option MapConfig)

def LastOperation.view (v : LastOperation) : ℕ × Option MapConfig :=
  (v.callId, v.config.map Config.view)

def ShardCtrler.view (sc : ShardCtrler) : MapCtrler :=
  ⟨sc.configs.map Config.view, fun clientId => (sc.lastOp clientId).map LastOperation.view⟩

lemma view_mk {n : ℕ} {shards : Fin nShards → Gid} {groups groups' : Groups}
    (h : groups.toFinmap = groups'.toFinmap) :
    Config.view ⟨n, shards, groups⟩ = Config.view ⟨n, shards, groups'⟩ := by
  rw [Config.view, Config.view, h]

/-- Results that look the same still do after the same is done with them. -/
lemma map_view {A B V W : Type*} {x y : Option A} {v : A → V} {w : B → W} {f g : A → B}
    (h : x.map v = y.map v) (hfg : ∀ a b, v a = v b → w (f a) = w (g b)) :
    (x.map f).map w = (y.map g).map w := by
  cases x with
  | none =>
    cases y with
    | none => rfl
    | some b => cases h
  | some a =>
    cases y with
    | none => cases h
    | some b => exact congrArg some (hfg a b (Option.some.inj h))

section Balance

variable {c d : Config}

/-- The first loop asks the groups only for membership and their number. -/
lemma surplus_congr (h : c.view = d.view) : surplus c = surplus d := by
  obtain ⟨n, shards, groups⟩ := c
  obtain ⟨n', shards', groups'⟩ := d
  obtain ⟨-, rfl, hg⟩ := MapConfig.mk.inj h
  have hmem (gid : Gid) : gid ∈ groups ↔ gid ∈ groups' := AList.mem_of_perm (AList.toFinmap_eq.1 hg)
  have hvisit (x : ℕ) :
      Surplus.visit ⟨n, shards, groups⟩ x = Surplus.visit ⟨n', shards, groups'⟩ x := by
    funext sp i
    simp only [Surplus.visit, hmem]
  simp only [surplus, hvisit, (keys_perm_of_toFinmap hg).length_eq]

/-- **`makeShardBalance` on one map, whatever the order of the loop.** -/
lemma makeShardBalanceIn_view {order : List Gid} (h : c.view = d.view)
    (ho : order.Perm c.groups.keys) :
    (makeShardBalanceIn order c).map Config.view = (makeShardBalance d).map Config.view := by
  have hs : surplus c = surplus d := surplus_congr h
  obtain ⟨hn, hsh, hg⟩ := MapConfig.mk.inj h
  have hkeys : c.groups.keys.Perm d.groups.keys := keys_perm_of_toFinmap hg
  have hkept : keptIn order c = kept d := by
    rw [keptIn, kept, hs]
    exact sort_map_of_perm (ho.trans hkeys) _
  have hview (shards : Fin nShards → Gid) :
      Config.view { c with shards := shards } = Config.view { d with shards := shards } := by
    simp only [Config.view, hn, hg]
  rw [makeShardBalanceIn, makeShardBalance, hkept, hs, hsh, hkeys.length_eq]
  split_ifs with h0
  · exact congrArg some (hview _)
  · rw [Option.map_map, Option.map_map]
    exact congrArg (Option.map · _) (funext fun ho => hview ho.assigned)

end Balance

namespace ShardCtrler

variable {sc d : ShardCtrler} {op : Op} {o : Orders} {log : List Op} {r r₁ r₂ : Option ShardCtrler}

section Views

variable (h : sc.view = d.view)

include h

lemma configs_view : sc.configs.map Config.view = d.configs.map Config.view :=
  congrArg MapCtrler.configs h

lemma length_of_view : sc.configs.length = d.configs.length := by
  simpa using congrArg List.length (configs_view h)

lemma lastOp_view (clientId : ℕ) :
    (sc.lastOp clientId).map LastOperation.view = (d.lastOp clientId).map LastOperation.view :=
  congrFun (congrArg MapCtrler.lastOp h) clientId

lemma latest_view : sc.latest.view = d.latest.view := by
  have hlast := congrArg List.getLast? (configs_view h)
  rw [List.getLast?_map, List.getLast?_map] at hlast
  rw [latest, latest, List.getLastD_eq_getLast?, List.getLastD_eq_getLast?]
  cases hs : sc.configs.getLast? with
  | none =>
    cases hd : d.configs.getLast? with
    | none => rfl
    | some e => rw [hs, hd] at hlast; cases hlast
  | some c =>
    cases hd : d.configs.getLast? with
    | none => rw [hs, hd] at hlast; cases hlast
    | some e => rw [hs, hd] at hlast; exact Option.some.inj hlast

lemma done_of_view (op : Op) : sc.done op = d.done op := by
  have hop := lastOp_view h op.clientId
  rw [done, done]
  cases hs : sc.lastOp op.clientId with
  | none =>
    cases hd : d.lastOp op.clientId with
    | none => rfl
    | some w => rw [hs, hd] at hop; cases hop
  | some v =>
    cases hd : d.lastOp op.clientId with
    | none => rw [hs, hd] at hop; cases hop
    | some w =>
      rw [hs, hd] at hop
      have hcall : v.callId = w.callId := congrArg Prod.fst (Option.some.inj hop)
      simp only [hcall]

lemma queried_view (num : ℤ) :
    (sc.queried num).map Config.view = (d.queried num).map Config.view := by
  rw [queried, queried, length_of_view h]
  split_ifs with hlast hnum
  · exact congrArg some (latest_view h)
  · rw [← List.getElem?_map, ← List.getElem?_map, configs_view h]
  · rfl

/-- What `lastOp` looks like when an answer is stored. -/
lemma lastOp_update_view (clientId callId : ℕ) {a b : Option Config}
    (hab : a.map Config.view = b.map Config.view) :
    (fun c => (Function.update sc.lastOp clientId (some ⟨callId, a⟩) c).map LastOperation.view) =
      fun c => (Function.update d.lastOp clientId (some ⟨callId, b⟩) c).map LastOperation.view := by
  funext c
  by_cases hc : c = clientId
  · subst hc
    rw [Function.update_self, Function.update_self]
    exact congrArg (fun v => some (callId, v)) hab
  · rw [Function.update_of_ne hc, Function.update_of_ne hc]
    exact lastOp_view h c

lemma append_view {a b : Config} (hab : a.view = b.view) :
    (sc.append op a).view = (d.append op b).view := by
  refine congrArg₂ MapCtrler.mk ?_ (lastOp_update_view h _ _ rfl)
  simp only [append, List.map_append, List.map_cons, List.map_nil, configs_view h, hab]

lemma store_view {a b : Config} (hab : a.view = b.view) :
    (sc.store op a).view = (d.store op b).view := by
  have hconfigs := configs_view h
  have hsome : (some a).map Config.view = (some b).map Config.view := congrArg some hab
  exact congrArg₂ MapCtrler.mk hconfigs (lastOp_update_view h _ _ hsome)

/-! ### One command -/

/-- The new configuration does not depend on the orders. -/
lemma newConfigIn_view {args : Args} (ho : o.Range sc args) :
    (sc.newConfigIn o args).map Config.view = (d.newConfig args).map Config.view := by
  obtain ⟨-, hshards, hgroups⟩ := MapConfig.mk.inj (latest_view h)
  have hclone (hc : o.cloned.Perm sc.latest.groups.entries) :
      (cloneMap o.cloned).toFinmap = d.latest.groups.toFinmap :=
    (toFinmap_insertAll_empty hc).trans hgroups
  cases args with
  | join servers =>
    obtain ⟨hc, hj, hb⟩ := ho
    have hn : o.joined.NodupKeys := (List.perm_nodupKeys hj).2 servers.nodupKeys
    rw [newConfigIn, newConfig, length_of_view h, hshards]
    exact makeShardBalanceIn_view (view_mk (toFinmap_insertAll hj hn (hclone hc))) hb
  | leave gids =>
    obtain ⟨hc, hb⟩ := ho
    rw [newConfigIn, newConfig, length_of_view h, hshards]
    exact makeShardBalanceIn_view (view_mk (toFinmap_eraseAll gids (hclone hc))) hb
  | move shard gid =>
    rw [newConfigIn, newConfig, newConfig, length_of_view h, hshards]
    split_ifs
    · exact congrArg some (view_mk (hclone ho))
    · rfl
  | query num => rfl

/-- The stored answer does not depend on the orders. -/
lemma queriedIn_view {num : ℤ} (ho : o.Range sc (.query num)) :
    (sc.queriedIn o num).map Config.view = (d.queried num).map Config.view := by
  rw [← queried_view h, queriedIn]
  cases hq : sc.queried num with
  | none => rfl
  | some config =>
    exact congrArg some (view_mk (toFinmap_insertAll_empty (ho config hq)))

/-- **One command**: seen as maps, it does what `execOp` does, whatever the orders. -/
lemma execOpIn_view (ho : sc.done op = false → o.Range sc op.args) :
    (sc.execOpIn o op).map view = (d.execOp op).map view := by
  unfold execOpIn
  cases hd : sc.done op with
  | true =>
    rw [if_pos rfl, execOp_of_done ((done_of_view h op).symm.trans hd)]
    exact congrArg some h
  | false =>
    have hd' : d.done op = false := (done_of_view h op).symm.trans hd
    have hrange := ho hd
    rw [if_neg Bool.false_ne_true]
    cases ha : op.args with
    | query num =>
      rw [execOp_of_query hd' ha]
      exact map_view (queriedIn_view h (ha ▸ hrange)) fun a b => store_view h
    | join servers =>
      rw [execOp_of_newConfig hd' (by rw [ha]; rfl), ha]
      exact map_view (newConfigIn_view h (ha ▸ hrange)) fun a b => append_view h
    | leave gids =>
      rw [execOp_of_newConfig hd' (by rw [ha]; rfl), ha]
      exact map_view (newConfigIn_view h (ha ▸ hrange)) fun a b => append_view h
    | move shard gid =>
      rw [execOp_of_newConfig hd' (by rw [ha]; rfl), ha]
      exact map_view (newConfigIn_view h (ha ▸ hrange)) fun a b => append_view h

end Views

/-! ### A log of commands -/

/-- **A replica refines the controller of one order**, command by command. -/
lemma Applies.view (hr : Applies sc log r) (h : sc.view = d.view) :
    r.map ShardCtrler.view = (run execOp d log).map ShardCtrler.view := by
  induction hr generalizing d with
  | nil sc => exact congrArg some h
  | panic o log ho hp =>
    have hstep := execOpIn_view h ho
    rw [hp] at hstep
    rw [run, Option.map_eq_none_iff.1 hstep.symm]
    rfl
  | cons o ho hs hr ih =>
    have hstep := execOpIn_view h ho
    rw [hs] at hstep
    obtain ⟨d', hd', hview⟩ := Option.map_eq_some_iff.1 hstep.symm
    rw [run, hd']
    exact ih hview.symm

/-- **The replicas agree despite the order of their maps**: two replicas that apply one log have the
same configurations, with the groups as maps, and the same stored answers, or both have panicked. -/
theorem replicas_agree (h₁ : Applies init log r₁) (h₂ : Applies init log r₂) :
    r₁.map ShardCtrler.view = r₂.map ShardCtrler.view :=
  (Applies.view h₁ rfl).trans (Applies.view h₂ rfl).symm

/-- Three groups join at once. -/
def joinThree : Op := ⟨0, 1, .join (insertAll [⟨1, []⟩, ⟨2, []⟩, ⟨3, []⟩] ∅)⟩

def queryLatest : Op := ⟨7, 1, .query (-1)⟩

/-- The loops of `joinThree`, upwards and downwards. -/
def upwards : Orders := ⟨[], [⟨1, []⟩, ⟨2, []⟩, ⟨3, []⟩], [1, 2, 3]⟩

@[inherit_doc upwards]
def downwards : Orders := ⟨[], [⟨3, []⟩, ⟨2, []⟩, ⟨1, []⟩], [3, 2, 1]⟩

/-- A replica joins the three groups in some order, and then queries. -/
lemma applies_joinThree (o : Orders) (keys : List Gid) (ho : o.Range init joinThree.args)
    (hrun : ((init.execOpIn o joinThree).bind fun sc =>
      (sc.execOpIn ⟨sc.latest.groups.entries, [], []⟩ queryLatest).map fun sc' =>
        decide (sc'.latest.groups.keys = keys)) = some true) :
    ∃ sc, Applies init [joinThree, queryLatest] (some sc) ∧ sc.latest.groups.keys = keys := by
  obtain ⟨sc₁, h₁, hsc⟩ := Option.bind_eq_some_iff.1 hrun
  obtain ⟨sc₂, h₂, hkeys⟩ := Option.map_eq_some_iff.1 hsc
  refine ⟨sc₂, Applies.cons o (fun _ => ho) h₁ (Applies.cons _ (fun _ => ?_) h₂ (Applies.nil sc₂)),
    of_decide_eq_true hkeys⟩
  intro config hq
  cases hq
  exact List.Perm.refl _

theorem replicas_agree_three_groups : ∃ sc₁ sc₂,
    Applies init [joinThree, queryLatest] (some sc₁) ∧
      Applies init [joinThree, queryLatest] (some sc₂) ∧
      sc₁.latest.groups.keys = [3, 2, 1] ∧ sc₂.latest.groups.keys = [1, 2, 3] ∧
      sc₁.view = sc₂.view := by
  obtain ⟨sc₁, h₁, hk₁⟩ := applies_joinThree upwards [3, 2, 1]
    ⟨.refl _, by decide, by decide⟩ (by decide +kernel)
  obtain ⟨sc₂, h₂, hk₂⟩ := applies_joinThree downwards [1, 2, 3]
    ⟨.refl _, by decide, by decide⟩ (by decide +kernel)
  exact ⟨sc₁, sc₂, h₁, h₂, hk₁, hk₂, Option.some.inj (replicas_agree h₁ h₂)⟩

end ShardCtrler

end RaftLabs.Ctrler
