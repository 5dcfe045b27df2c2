import RaftLabs.Clerk
import Mathlib.Data.List.AList

/-!
# The shard controller

`shardctrler/server.go`: the list of configurations and the commands that extend it.  A map of the
source that the code counts or ranges over is an `AList`, so the order in which Go ranges over it is
one among all; `none` is a panic, that is, an index out of range.
-/

namespace RaftLabs.Ctrler

/-- `NShards`. -/
abbrev nShards : ℕ := 10

instance instNeZeroNShards : NeZero nShards := ⟨by decide⟩

/-- The name of a group. -/
abbrev Gid := ℤ

/-- `InvalidGid`: the group of a shard that has none. -/
def invalidGid : Gid := 0

/-- `Groups`: the servers of every group, by its gid. -/
abbrev Groups := AList fun _ : Gid => List GoString

/-- An assignment of shards to groups. -/
structure Config where
  num : ℕ
  shards : Fin nShards → Gid
  groups : Groups
  deriving DecidableEq

/-- Configuration `0`: no groups, all shards assigned to the invalid one. -/
def Config.zero : Config := ⟨0, fun _ => invalidGid, ∅⟩

/-! ### Balancing -/

/-- The variables of the first loop of `makeShardBalance`: how many shards a group may keep, the
groups that may still keep one more, and the shards that no group keeps. -/
structure Surplus where
  cnt : Gid → ℕ
  r : ℕ
  shards : List (Fin nShards)

/-- One turn of the first loop. -/
def Surplus.visit (config : Config) (x : ℕ) (sp : Surplus) (i : Fin nShards) : Surplus :=
  let gid := config.shards i
  if gid ∈ config.groups then
    if x ≤ sp.cnt gid then
      if sp.cnt gid = x then
        if sp.r = 0 then { sp with shards := sp.shards ++ [i] }
        else { sp with cnt := Function.update sp.cnt gid (sp.cnt gid + 1), r := sp.r - 1 }
      else { sp with shards := sp.shards ++ [i] }
    else { sp with cnt := Function.update sp.cnt gid (sp.cnt gid + 1) }
  else { sp with shards := sp.shards ++ [i] }

/-- The variables of the second loop: the assignment, the shards still to hand out, and the groups
that may still get one more. -/
structure Handout where
  assigned : Fin nShards → Gid
  shards : List (Fin nShards)
  r : ℕ

namespace Handout

/-- The last of the shards goes to `gid`; a panic if there is none. -/
def give (gid : Gid) (ho : Handout) : Option Handout :=
  ho.shards.getLast?.map fun i =>
    { ho with assigned := Function.update ho.assigned i gid, shards := ho.shards.dropLast }

/-- `for i < x`: so many shards go to `gid`. -/
def fill (gid : Gid) : ℕ → Handout → Option Handout
  | 0, ho => some ho
  | count + 1, ho => (ho.give gid).bind (fill gid count)

/-- One turn of the second loop, for a group that keeps `i` shards. -/
def visit (x : ℕ) (ho : Handout) (gid : Gid) (i : ℕ) : Option Handout :=
  (fill gid (x - i) ho).bind fun ho =>
    if i ≤ x ∧ 0 < ho.r then (ho.give gid).map fun ho => { ho with r := ho.r - 1 }
    else some ho

/-- The second loop. -/
def visitAll (x : ℕ) : List (Gid × ℕ) → Handout → Option Handout
  | [], ho => some ho
  | v :: t, ho => (ho.visit x v.1 v.2).bind (visitAll x t)

end Handout

/-- The first loop of `makeShardBalance`. -/
def surplus (config : Config) : Surplus :=
  (List.finRange nShards).foldl (Surplus.visit config (nShards / config.groups.keys.length))
    ⟨fun _ => 0, nShards % config.groups.keys.length, []⟩

/-- The groups with the shards they keep, in the order of the second loop. -/
def kept (config : Config) : List (Gid × ℕ) :=
  (config.groups.keys.insertionSort (· ≤ ·)).map fun gid => (gid, (surplus config).cnt gid)

/-- `makeShardBalance`. -/
def makeShardBalance (config : Config) : Option Config :=
  let groupNum := config.groups.keys.length
  if groupNum = 0 then some { config with shards := fun _ => invalidGid }
  else
    let sp := surplus config
    (Handout.visitAll (nShards / groupNum) (kept config) ⟨config.shards, sp.shards, sp.r⟩).map
      fun ho => { config with shards := ho.assigned }

/-! ### The commands -/

/-- What a command asks for; `JoinArgs`, `LeaveArgs`, `MoveArgs` and `QueryArgs`. -/
inductive Args
  | join (servers : Groups)
  | leave (gids : List Gid)
  | move (shard : ℤ) (gid : Gid)
  | query (num : ℤ)

structure Op where
  clientId : ℕ
  callId : ℕ
  args : Args

structure LastOperation where
  callId : ℕ
  config : Option Config

structure ShardCtrler where
  configs : List Config
  lastOp : ℕ → Option LastOperation

namespace ShardCtrler

/-- The controller that `StartServer` sets up. -/
def init : ShardCtrler := ⟨[Config.zero], fun _ => none⟩

variable (sc : ShardCtrler)

/-- `sc.configs[len(sc.configs) - 1]`. -/
def latest : Config := sc.configs.getLastD Config.zero

/-- The command has been executed already, or a later one of the same client. -/
def done (op : Op) : Bool :=
  match sc.lastOp op.clientId with
  | none => false
  | some v => decide (op.callId ≤ v.callId)

/-- The end of the commands that make a configuration. -/
def append (op : Op) (config : Config) : ShardCtrler :=
  { configs := sc.configs ++ [config]
    lastOp := Function.update sc.lastOp op.clientId (some ⟨op.callId, none⟩) }

/-- The groups after `execJoin`: a gid that is there already gets the new servers. -/
def joinGroups (servers : Groups) : Groups :=
  servers.entries.foldl (fun groups g => groups.insert g.1 g.2) sc.latest.groups

/-- The groups after `execLeave`. -/
def leaveGroups (gids : List Gid) : Groups :=
  gids.foldl (fun groups gid => groups.erase gid) sc.latest.groups

/-- The new configuration of `execJoin`, `execLeave` and `execMove`. -/
def newConfig : Args → Option Config
  | .join servers =>
    makeShardBalance ⟨sc.configs.length, sc.latest.shards, sc.joinGroups servers⟩
  | .leave gids =>
    makeShardBalance ⟨sc.configs.length, sc.latest.shards, sc.leaveGroups gids⟩
  | .move shard gid =>
    if h : 0 ≤ shard ∧ shard < nShards then
      some ⟨sc.configs.length,
        Function.update sc.latest.shards ⟨shard.toNat, (Int.toNat_lt h.1).2 h.2⟩ gid,
        sc.latest.groups⟩
    else none
  | .query _ => none

/-- The configuration that `execQuery` answers with. -/
def queried (num : ℤ) : Option Config :=
  if num = -1 ∨ (sc.configs.length : ℤ) ≤ num then some sc.latest
  else if 0 ≤ num then sc.configs[num.toNat]? else none

/-- `execOp`: the four commands. -/
def execOp (op : Op) : Option ShardCtrler :=
  if sc.done op then some sc
  else
    match op.args with
    | .query num =>
      (sc.queried num).map fun config =>
        { sc with
          lastOp := Function.update sc.lastOp op.clientId (some ⟨op.callId, some config⟩) }
    | args => (sc.newConfig args).map (sc.append op)

end ShardCtrler

end RaftLabs.Ctrler
