import RaftLabs.ShardCtrler.Server

/-!
# The server of shardkv

`shardkv/server.go`: the map of the shards that a group serves, the commands of its log (operations
of clients, configurations, data of a shard that arrives, and the release of data that has been
handed over), and the RPC handlers and background loops, cut at the points where they give up
`kv.mu`.  `none` is a panic; a reply that says `ErrWrongLeader` where the source returns no data is
`none` too.  What Raft and the controller answer is an argument.
-/

namespace RaftLabs.ShardKv

open Ctrler

abbrev Shard := Fin nShards

/-- `key2shard`: the first byte of the key, modulo the number of shards. -/
def key2shard (key : GoString) : Shard :=
  match key with
  | [] => 0
  | b :: _ => ⟨b.toNat % nShards, Nat.mod_lt _ (by decide)⟩

inductive OpType
  | get | put | append | errChangeGroup
  deriving DecidableEq

structure Op where
  opType : OpType
  clientId : ℕ
  callId : ℕ
  key : GoString
  value : GoString := []
  deriving DecidableEq

structure LastOperation where
  callId : ℕ
  result : GoString
  deriving DecidableEq

/-- The key/value pairs of one shard, or of all. -/
abbrev Data := GoString → Option GoString

/-- A reply with `ErrWrongLeader = false`. -/
structure MigrateShardReply where
  configNum : ℕ
  shard : Shard
  data : Data
  lastOperation : ℕ → Option LastOperation

/-- A command in the log of a group. -/
inductive Command
  | op (op : Op)
  | config (config : Config)
  | migrate (reply : MigrateShardReply)
  | gc (cfgNum : ℕ) (shard : Shard)

/-- The command of slot `0` of a log, which is never executed. -/
instance : Inhabited Command := ⟨.gc 0 0⟩

/-- What a snapshot holds after its index. -/
structure Image where
  data : Data
  lastOp : ℕ → Option LastOperation
  config : Config
  myShards : Finset Shard
  dataForMigration : ℕ → Shard → Option Data
  shardDataReqs : Shard → Option ℕ
  gcList : Finset (ℕ × Shard)

structure ShardKV extends Image where
  gid : Gid
  lastApplied : ℕ

inductive Err
  | ok | errNoKey | errWrongGroup | errWrongLeader
  deriving DecidableEq

/-- `GetReply` and `PutAppendReply`; the value of the latter is not looked at. -/
structure Reply where
  err : Err
  value : GoString := []
  deriving DecidableEq

/-- `equalOp`.  Two operations of one client and of one kind count as equal whatever their calls:
the source compares `op2.CallId` with itself. -/
def equalOp : Command → Command → Bool
  | .op op1, .op op2 => op1.opType = op2.opType ∧ op1.clientId = op2.clientId ∧
      op2.callId = op2.callId
  | .config cfg1, .config cfg2 => cfg1.num = cfg2.num
  | .migrate msr1, .migrate msr2 => msr1.configNum = msr2.configNum ∧ msr1.shard = msr2.shard
  | .gc cfgNum1 shard1, .gc cfgNum2 shard2 => cfgNum1 = cfgNum2 ∧ shard1 = shard2
  | _, _ => false

namespace ShardKV

/-- The server that `StartServer` sets up, before `restoreState`. -/
def init (gid : Gid) : ShardKV where
  data _ := none
  lastOp _ := none
  config := Config.zero
  myShards := ∅
  dataForMigration _ _ := none
  shardDataReqs _ := none
  gcList := ∅
  gid := gid
  lastApplied := 0

variable (kv : ShardKV)

/-- `checkRightGroup`. -/
def checkRightGroup (key : GoString) : Bool := key2shard key ∈ kv.myShards

/-! ### Operations of clients -/

/-- The operation has been executed already, or a later one of the same client. -/
def done (op : Op) : Bool :=
  match kv.lastOp op.clientId with
  | none => false
  | some v => decide (op.callId ≤ v.callId)

/-- What `execCommand` does with an operation that it executes. -/
def perform (op : Op) : ShardKV :=
  let result :=
    match op.opType with
    | .get => (kv.data op.key).getD []
    | _ => []
  let data :=
    match op.opType with
    | .put => Function.update kv.data op.key (some op.value)
    | .append => Function.update kv.data op.key (some ((kv.data op.key).getD [] ++ op.value))
    | _ => kv.data
  { kv with
    data := data
    lastOp := Function.update kv.lastOp op.clientId (some ⟨op.callId, result⟩) }

/-- The operation is executed: it is new, and its key belongs to the group. -/
def performs (op : Op) : Bool := !kv.done op && kv.checkRightGroup op.key

/-- The part of `execCommand` for an operation, with the command that its handler will see. -/
def execOp (op : Op) : ShardKV × Command :=
  if kv.done op then (kv, .op op)
  else if kv.checkRightGroup op.key then (kv.perform op, .op op)
  else (kv, .op { op with opType := .errChangeGroup })

/-! ### Configurations -/

/-- One turn of the loop of `execApplyConfig` over the shards, which collects `lostShards`. -/
def visitShard (oldConfig newConfig : Config) (v : ShardKV × List Shard) (i : Shard) :
    ShardKV × List Shard :=
  let gid1 := oldConfig.shards i
  let gid2 := newConfig.shards i
  if gid1 ≠ gid2 ∧ (gid1 = v.1.gid ∨ gid2 = v.1.gid) then
    if gid1 = v.1.gid then (v.1, v.2 ++ [i])
    else if oldConfig.num ≠ 0 then
      ({ v.1 with shardDataReqs := Function.update v.1.shardDataReqs i (some oldConfig.num) }, v.2)
    else ({ v.1 with myShards := insert i v.1.myShards }, v.2)
  else v

/-- One turn of the loop over `lostShards`: the data of the shard is set aside. -/
def loseShard (cfgNum : ℕ) (kv : ShardKV) (shard : Shard) : ShardKV :=
  { kv with
    myShards := kv.myShards.erase shard
    data := fun k => if key2shard k = shard then none else kv.data k
    dataForMigration := Function.update kv.dataForMigration cfgNum
      (Function.update (kv.dataForMigration cfgNum) shard
        (some fun k => if key2shard k = shard then kv.data k else none)) }

/-- `execApplyConfig`. -/
def execApplyConfig (newConfig : Config) : ShardKV :=
  if newConfig.num ≤ kv.config.num then kv
  else
    let oldConfig := kv.config
    let v := (List.finRange nShards).foldl (visitShard oldConfig newConfig) (kv, [])
    { v.2.foldl (loseShard oldConfig.num) v.1 with config := newConfig }

/-! ### Migration -/

/-- The merge of `execMigrationDataSync` for one client. -/
def mergeOp : Option LastOperation → Option LastOperation → Option LastOperation
  | lop, none => lop
  | none, some v => some v
  | some lop, some v => if lop.callId ≤ v.callId then some v else some lop

/-- The part of `execMigrationDataSync` for a shard the group does not have. -/
def adopt (m : MigrateShardReply) : ShardKV :=
  { kv with
    myShards := insert m.shard kv.myShards
    data := fun k => (m.data k).or (kv.data k)
    lastOp := fun c => mergeOp (kv.lastOp c) (m.lastOperation c) }

/-- The part of `execMigrationDataSync` for a shard that has been asked for. -/
def settle (m : MigrateShardReply) : ShardKV :=
  if (kv.shardDataReqs m.shard).isSome then
    { kv with
      shardDataReqs := Function.update kv.shardDataReqs m.shard none
      gcList := insert (m.configNum, m.shard) kv.gcList }
  else kv

/-- `execMigrationDataSync`. -/
def execMigrationDataSync (m : MigrateShardReply) : ShardKV :=
  if m.configNum + 1 ≠ kv.config.num then kv
  else (if m.shard ∈ kv.myShards then kv else kv.adopt m).settle m

/-- `execGC`. -/
def execGC (cfgNum : ℕ) (shard : Shard) : ShardKV :=
  { kv with
    dataForMigration := Function.update kv.dataForMigration cfgNum
      (Function.update (kv.dataForMigration cfgNum) shard none) }

/-! ### The log -/

/-- The body of `execCommand`: the new state, and what goes to the channel of the index. -/
def exec (command : Command) : ShardKV × Command :=
  let kv := { kv with lastApplied := kv.lastApplied + 1 }
  match command with
  | .config config => (kv.execApplyConfig config, command)
  | .migrate m => (kv.execMigrationDataSync m, command)
  | .gc cfgNum shard => (kv.execGC cfgNum shard, command)
  | .op op => kv.execOp op

/-- `execCommand`. -/
def execCommand (command : Command) (index : ℕ) : Option (ShardKV × Command) :=
  if kv.lastApplied + 1 ≠ index then none else some (kv.exec command)

/-! ### The RPC handlers and the background loops -/

/-- The operation that the handler of a method hands to `Start`. -/
def op (r : Request) : Op :=
  match r.method with
  | .get key => { opType := .get, clientId := r.clientId, callId := r.callId, key := key }
  | .put key value =>
    { opType := .put, clientId := r.clientId, callId := r.callId, key := key, value := value }
  | .append key value =>
    { opType := .append, clientId := r.clientId, callId := r.callId, key := key, value := value }

/-- The answer `OK`; only `Get` fills in a value. -/
def accept (r : Request) (v : LastOperation) : Reply :=
  match r.method with
  | .get _ => ⟨.ok, v.result⟩
  | _ => { err := .ok }

/-- `Get` and `PutAppend` after the channel has told what was executed at the index. -/
def finish (r : Request) (currOp : Command) : Reply :=
  if equalOp (.op (op r)) currOp = false then
    match currOp with
    | .op c =>
      if c.opType = .errChangeGroup then { err := .errWrongGroup } else { err := .errWrongLeader }
    | _ => { err := .errWrongLeader }
  else
    match kv.lastOp r.clientId with
    | none => { err := .errWrongLeader }
    | some v => if v.callId ≠ r.callId then { err := .errWrongLeader } else accept r v

/-- `MigrateShard`, with `cloneDataAndLastOperation`: the data is the one set aside, the table of
last operations the current one. -/
def migrateShard (isLeader : Bool) (configNum : ℕ) (shard : Shard) : Option MigrateShardReply :=
  if isLeader = false then none
  else if kv.config.num < configNum then none
  else (kv.dataForMigration configNum shard).map fun data => ⟨configNum, shard, data, kv.lastOp⟩

/-- `len(kv.ShardDataReqs) == 0`. -/
def noReqs : Bool := ∀ shard, kv.shardDataReqs shard = none

/-- The number that `queryConfig` asks the controller for, and its check of the answer. -/
def queryConfig (isLeader : Bool) (query : ℕ → Config) : Option Config :=
  if isLeader ∧ kv.noReqs then
    let config := query (kv.config.num + 1)
    if config.num = kv.config.num + 1 then some config else none
  else none

/-- What `tryGC` does when the old owner has confirmed. -/
def collected (cfgNum : ℕ) (shard : Shard) : ShardKV :=
  { kv with gcList := kv.gcList.erase (cfgNum, shard) }

/-! ### Snapshots -/

/-- What `makeSnapshot` captures under the lock: the index, and the rest. -/
def makeSnapshot : ℕ × Image := (kv.lastApplied, kv.toImage)

/-- `applySnapshot`, for bytes that decode to `snapshot`. -/
def applySnapshot (snapshotIndex : ℕ) (snapshot : ℕ × Image) : Option ShardKV :=
  if snapshot.1 ≠ snapshotIndex then none
  else if snapshotIndex < kv.lastApplied then some kv
  else some { snapshot.2 with gid := kv.gid, lastApplied := snapshotIndex }

/-- `restoreState`. -/
def restoreState : Option (ℕ × Image) → ShardKV
  | none => kv
  | some snapshot => { snapshot.2 with gid := kv.gid, lastApplied := snapshot.1 }

end ShardKV

/-! ### What the functions compute -/

namespace ShardKV

variable {kv : ShardKV}

/-- The group loses the shard when it goes from one configuration to the other. -/
def Loses (gid : Gid) (oldConfig newConfig : Config) (i : Shard) : Prop :=
  oldConfig.shards i = gid ∧ newConfig.shards i ≠ gid

/-- The group gains the shard. -/
def Gains (gid : Gid) (oldConfig newConfig : Config) (i : Shard) : Prop :=
  oldConfig.shards i ≠ gid ∧ newConfig.shards i = gid

instance (gid : Gid) (oldConfig newConfig : Config) (i : Shard) :
    Decidable (Loses gid oldConfig newConfig i) :=
  inferInstanceAs (Decidable (_ ∧ _))

instance (gid : Gid) (oldConfig newConfig : Config) (i : Shard) :
    Decidable (Gains gid oldConfig newConfig i) :=
  inferInstanceAs (Decidable (_ ∧ _))

lemma visitShard_eq (oldConfig newConfig : Config) (v : ShardKV × List Shard) (i : Shard) :
    visitShard oldConfig newConfig v i =
      ({ v.1 with
          shardDataReqs :=
            if Gains v.1.gid oldConfig newConfig i ∧ oldConfig.num ≠ 0 then
              Function.update v.1.shardDataReqs i (some oldConfig.num)
            else v.1.shardDataReqs
          myShards :=
            if Gains v.1.gid oldConfig newConfig i ∧ oldConfig.num = 0 then insert i v.1.myShards
            else v.1.myShards },
        v.2 ++ if Loses v.1.gid oldConfig newConfig i then [i] else []) := by
  have hsymm : v.1.gid = newConfig.shards i ↔ newConfig.shards i = v.1.gid := eq_comm
  unfold visitShard Gains Loses
  by_cases h₁ : oldConfig.shards i = v.1.gid <;> by_cases h₂ : newConfig.shards i = v.1.gid <;>
    by_cases h₃ : oldConfig.num = 0 <;> simp [h₁, h₂, h₃, hsymm]

/-- What the loop over the shards does: it asks for the shards gained, or has them at once if there
was no configuration before, and collects the shards lost. -/
lemma foldl_visitShard (oldConfig newConfig : Config) (l : List Shard) (v : ShardKV × List Shard) :
    l.foldl (visitShard oldConfig newConfig) v =
      ({ v.1 with
          shardDataReqs := fun i =>
            if i ∈ l ∧ Gains v.1.gid oldConfig newConfig i ∧ oldConfig.num ≠ 0 then
              some oldConfig.num
            else v.1.shardDataReqs i
          myShards := v.1.myShards ∪
            (l.filter fun i => Gains v.1.gid oldConfig newConfig i ∧ oldConfig.num = 0).toFinset },
        v.2 ++ l.filter fun i => Loses v.1.gid oldConfig newConfig i) := by
  induction l generalizing v with
  | nil => simp
  | cons j l ih =>
    rw [List.foldl_cons, ih, visitShard_eq]
    refine Prod.ext ?_ ?_
    · dsimp only
      congr 1
      congr 1
      · by_cases hg : Gains v.1.gid oldConfig newConfig j ∧ oldConfig.num = 0
        · rw [if_pos hg]
          ext i
          simp [hg]
        · rw [if_neg hg]
          ext i
          simp [hg]
      · funext i
        by_cases hg : Gains v.1.gid oldConfig newConfig j ∧ oldConfig.num ≠ 0
        · by_cases hi : i = j
          · subst hi
            simp [hg]
          · simp [hg, hi]
        · by_cases hi : i = j
          · subst hi
            simp [hg]
          · simp [hg, hi]
    · dsimp only
      by_cases hl : Loses v.1.gid oldConfig newConfig j <;> simp [hl]

/-- What the loop over the lost shards does: it sets their data aside. -/
lemma foldl_loseShard (cfgNum : ℕ) {l : List Shard} (hnd : l.Nodup) (kv : ShardKV) :
    l.foldl (loseShard cfgNum) kv =
      { kv with
        myShards := kv.myShards \ l.toFinset
        data := fun k => if key2shard k ∈ l then none else kv.data k
        dataForMigration := fun n i =>
          if n = cfgNum ∧ i ∈ l then some fun k => if key2shard k = i then kv.data k else none
          else kv.dataForMigration n i } := by
  induction l generalizing kv with
  | nil => simp
  | cons j l ih =>
    obtain ⟨hj, hnd⟩ := List.nodup_cons.1 hnd
    rw [List.foldl_cons, ih hnd]
    unfold loseShard
    dsimp only
    congr 1
    congr 1
    · funext k
      by_cases hk : key2shard k = j <;> simp [hk]
    · ext i
      simp [not_or, and_assoc, and_left_comm]
    · funext n i
      by_cases hn : n = cfgNum
      · subst hn
        by_cases hi : i = j
        · subst hi
          simp [hj]
        · -- the shard before has nothing of this one
          have hkeep : ∀ k, key2shard k = i → key2shard k ≠ j := fun k hk h => hi (hk ▸ h)
          by_cases hil : i ∈ l
          · simp only [hil, and_self, if_true, List.mem_cons, or_true, Option.some.injEq]
            funext k
            by_cases hk : key2shard k = i
            · simp [hk, hi]
            · simp [hk]
          · simp [hi, hil]
      · simp [hn]

/-- **`execApplyConfig`**, shard by shard. -/
lemma execApplyConfig_eq {newConfig : Config} (h : kv.config.num < newConfig.num) :
    kv.execApplyConfig newConfig =
      { kv with
        config := newConfig
        shardDataReqs := fun i =>
          if Gains kv.gid kv.config newConfig i ∧ kv.config.num ≠ 0 then some kv.config.num
          else kv.shardDataReqs i
        myShards := Finset.univ.filter fun i => ¬ Loses kv.gid kv.config newConfig i ∧
          (i ∈ kv.myShards ∨ Gains kv.gid kv.config newConfig i ∧ kv.config.num = 0)
        data := fun k => if Loses kv.gid kv.config newConfig (key2shard k) then none else kv.data k
        dataForMigration := fun n i =>
          if n = kv.config.num ∧ Loses kv.gid kv.config newConfig i then
            some fun k => if key2shard k = i then kv.data k else none
          else kv.dataForMigration n i } := by
  unfold execApplyConfig
  rw [if_neg (not_le.2 h)]
  dsimp only
  rw [foldl_visitShard, List.nil_append, foldl_loseShard _ ((List.nodup_finRange nShards).filter _)]
  congr 1
  congr 1
  · funext k
    simp
  · ext i
    simp [and_comm]
  · funext n i
    simp
  · funext i
    simp

/-! ### Positions -/

@[simp] lemma execApplyConfig_lastApplied (newConfig : Config) :
    (kv.execApplyConfig newConfig).lastApplied = kv.lastApplied := by
  by_cases h : kv.config.num < newConfig.num
  · rw [execApplyConfig_eq h]
  · rw [execApplyConfig, if_pos (not_lt.1 h)]

@[simp] lemma execMigrationDataSync_lastApplied (m : MigrateShardReply) :
    (kv.execMigrationDataSync m).lastApplied = kv.lastApplied := by
  unfold execMigrationDataSync settle
  split_ifs <;> rfl

@[simp] lemma execOp_lastApplied (op : Op) : (kv.execOp op).1.lastApplied = kv.lastApplied := by
  unfold execOp
  split_ifs <;> rfl

lemma exec_lastApplied (command : Command) :
    (kv.exec command).1.lastApplied = kv.lastApplied + 1 := by
  cases command with
  | config config => exact execApplyConfig_lastApplied config
  | migrate m => exact execMigrationDataSync_lastApplied m
  | gc cfgNum shard => rfl
  | op op => exact execOp_lastApplied op

lemma execApplyConfig_gid (newConfig : Config) : (kv.execApplyConfig newConfig).gid = kv.gid := by
  by_cases h : kv.config.num < newConfig.num
  · rw [execApplyConfig_eq h]
  · rw [execApplyConfig, if_pos (not_lt.1 h)]

lemma exec_gid (command : Command) : (kv.exec command).1.gid = kv.gid := by
  cases command with
  | config config => exact execApplyConfig_gid config
  | migrate m =>
    dsimp only [exec, execMigrationDataSync, settle]
    split_ifs <;> rfl
  | gc cfgNum shard => rfl
  | op op =>
    dsimp only [exec, execOp]
    split_ifs <;> rfl

/-- `execCommand` panics unless the command is the next one. -/
lemma execCommand_isSome {command : Command} {index : ℕ} :
    (kv.execCommand command index).isSome ↔ index = kv.lastApplied + 1 := by
  unfold execCommand
  split_ifs with h
  · simpa using Ne.symm h
  · simpa using (not_not.1 h).symm

lemma execCommand_eq {command : Command} {index : ℕ} {r : ShardKV × Command}
    (h : kv.execCommand command index = some r) :
    r = kv.exec command ∧ index = kv.lastApplied + 1 := by
  unfold execCommand at h
  split_ifs at h with hi
  cases h
  exact ⟨rfl, (not_not.1 hi).symm⟩

lemma execCommand_lastApplied {command : Command} {index : ℕ} {r : ShardKV × Command}
    (h : kv.execCommand command index = some r) : r.1.lastApplied = index := by
  obtain ⟨rfl, rfl⟩ := execCommand_eq h
  exact exec_lastApplied command

/-- `applySnapshot` panics unless the bytes start with the index. -/
lemma applySnapshot_isSome {index : ℕ} {snapshot : ℕ × Image} :
    (kv.applySnapshot index snapshot).isSome ↔ snapshot.1 = index := by
  unfold applySnapshot
  split_ifs with h₁ h₂
  · simpa using h₁
  · simpa using h₁
  · simpa using h₁

lemma applySnapshot_lastApplied {index : ℕ} {snapshot : ℕ × Image} {kv' : ShardKV}
    (h : kv.applySnapshot index snapshot = some kv') :
    kv'.lastApplied = max kv.lastApplied index := by
  unfold applySnapshot at h
  split_ifs at h with h₁ h₂ <;> cases h
  · exact (max_eq_left h₂.le).symm
  · exact (max_eq_right (not_lt.1 h₂)).symm

/-! ### The handlers of the clients -/

variable {r : Request} {currOp : Command} {v : LastOperation}

@[simp] lemma clientId_op (r : Request) : (op r).clientId = r.clientId := by
  obtain ⟨c, k, _ | _ | _⟩ := r <;> rfl

@[simp] lemma callId_op (r : Request) : (op r).callId = r.callId := by
  obtain ⟨c, k, _ | _ | _⟩ := r <;> rfl

lemma accept_err (r : Request) (v : LastOperation) : (accept r v).err = .ok := by
  unfold accept
  split <;> rfl

/-- The answer is what the handler has found in the table. -/
lemma finish_eq_accept (he : equalOp (.op (op r)) currOp = true) (hv : kv.lastOp r.clientId = some v)
    (hcall : v.callId = r.callId) : kv.finish r currOp = accept r v := by
  unfold finish
  rw [if_neg (by simp [he]), hv]
  exact if_neg (not_not.2 hcall)

/-- **When a handler of a client answers `OK`**: some call of the client, of the same kind, was
executed or skipped at the index, and the last one executed is the handler's. -/
lemma finish_err_ok_iff : (kv.finish r currOp).err = .ok ↔
    equalOp (.op (op r)) currOp = true ∧
      ∃ v, kv.lastOp r.clientId = some v ∧ v.callId = r.callId := by
  constructor
  · intro h
    unfold finish at h
    split at h
    · split at h
      · split_ifs at h
      · cases h
    · rename_i he
      refine ⟨by simpa using he, ?_⟩
      split at h
      · cases h
      · rename_i v hv
        split_ifs at h with hne
        exact ⟨v, hv, not_not.1 hne⟩
  · rintro ⟨he, v, hv, hcall⟩
    rw [finish_eq_accept he hv hcall, accept_err]

end ShardKV

end RaftLabs.ShardKv
