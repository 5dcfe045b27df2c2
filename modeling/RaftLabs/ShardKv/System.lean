import RaftLabs.Lib.Trace
import RaftLabs.ShardKv.Server

/-!
# shardkv as a system

The groups, each with its replicas and its log, the RPCs between groups, the waiting handlers, and
the clerks; `H` is the history of configurations that the controller serves.  What is assumed of
Raft and of the controller is what the service is written against: the replicas of a group are given
one log without gaps, a command enters it some time after a replica that took itself for the leader
has handed it to `Start`, once, several times or never, the snapshots a replica is handed are
snapshots that some replica of the group has made, and `Query` gives configuration `n` as soon as
there is one, and before that the latest.  Leadership and the indices that `Start` answers are left
open.

The log of a group is what its most advanced replica has applied: a command enters it at the moment
in which some replica is the first to apply it.  Requests, RPCs between the groups and answers are
never removed, so each of them may arrive late, and any number of times.
-/

namespace RaftLabs.ShardKv

open Lib Ctrler

/-- A history of numbered configurations, from configuration `0` on. -/
structure History where
  configs : List Config
  first : configs[0]? = some Config.zero
  numbered : ∀ (n : ℕ) (config : Config), configs[n]? = some config → config.num = n

namespace History

variable (H : History)

/-- Configuration `n`. -/
def config (n : ℕ) : Config := H.configs.getD n Config.zero

/-- `Query(num)`: the latest configuration if there is no such one. -/
def query (num : ℕ) : Config := H.configs.getD num (H.configs.getLastD Config.zero)

end History

variable (ι : Type)

/-- A server, with the channels of `notifyChan` that hold a command. -/
structure Replica where
  kv : ShardKV
  notifyChan : ℕ → Option Command

structure Group where
  log : List Command
  started : List Command
  replicas : ι → Replica
  snapshots : List (ℕ × Image)

/-- What travels between groups; the first two arguments are the calling replica. -/
inductive Packet
  | migrateShard (gid : Gid) (i : ι) (owner : Gid) (configNum : ℕ) (shard : Shard)
  | migrateShardReply (gid : Gid) (i : ι) (reply : MigrateShardReply)
  | gc (gid : Gid) (i : ι) (owner : Gid) (cfgNum : ℕ) (shard : Shard)
  | gcReply (gid : Gid) (i : ι) (cfgNum : ℕ) (shard : Shard)

/-- What a handler is there for: a request of a clerk, or the `GC` of a replica of another group. -/
inductive Task
  | client (r : Request)
  | gc (cfgNum : ℕ) (shard : Shard) (gid : Gid) (i : ι)

/-- A handler of a replica: before `Start`, or waiting for the channel of an index. -/
structure Handler where
  gid : Gid
  server : ι
  task : Task ι
  index : Option ℕ

structure System where
  groups : Gid → Group ι
  packets : List (Packet ι)
  handlers : List (Handler ι)
  answers : List (Request × Reply)
  clerks : Clerks

/-- What can happen next; commands, packets, handlers, snapshots and answers are named by their
place. -/
inductive Event
  | call (clientId : ℕ) (method : Method)
  | request (r : Request) (gid : Gid) (i : ι)
  | start (k index : ℕ) (isLeader : Bool)
  | notify (k : ℕ)
  | queryConfig (gid : Gid) (i : ι) (isLeader : Bool)
  | tryReqShardData (gid : Gid) (i : ι) (shard : Shard)
  | tryGC (gid : Gid) (i : ι) (cfgNum : ℕ) (shard : Shard)
  | deliver (k : ℕ) (j : ι) (isLeader : Bool)
  | commit (gid : Gid) (i : ι) (k : ℕ)
  | apply (gid : Gid) (i : ι)
  | makeSnapshot (gid : Gid) (i : ι)
  | applySnapshot (gid : Gid) (i : ι) (k : ℕ)
  | crash (gid : Gid) (i : ι) (k : ℕ)
  | answer (k : ℕ)

variable {ι} [DecidableEq ι]

/-- The command that a handler hands to `Start`. -/
def Task.command : Task ι → Command
  | .client r => .op (ShardKV.op r)
  | .gc cfgNum shard _ _ => .gc cfgNum shard

/-- The state of a replica of the group that has executed this log. -/
def replay (gid : Gid) (log : List Command) : ShardKV :=
  log.foldl (fun kv command => (kv.exec command).1) (ShardKV.init gid)

namespace System

def init : System ι where
  groups gid := ⟨[], [], fun _ => ⟨ShardKV.init gid, fun _ => none⟩, []⟩
  packets := []
  handlers := []
  answers := []
  clerks := Clerks.init

variable (s : System ι)

/-- The state of a group: that of its most advanced replica. -/
def state (gid : Gid) : ShardKV := replay gid (s.groups gid).log

def replica (gid : Gid) (i : ι) : Replica := (s.groups gid).replicas i

def setGroup (gid : Gid) (group : Group ι) : System ι :=
  { s with groups := Function.update s.groups gid group }

def setReplica (gid : Gid) (i : ι) (r : Replica) : System ι :=
  s.setGroup gid { s.groups gid with replicas := Function.update (s.groups gid).replicas i r }

/-- A replica that takes itself for the leader hands a command to `Start`. -/
def submit (gid : Gid) (command : Command) : System ι :=
  s.setGroup gid { s.groups gid with started := (s.groups gid).started ++ [command] }

def send (p : Packet ι) : System ι := { s with packets := s.packets ++ [p] }

def respond (r : Request) (reply : Reply) : System ι :=
  { s with answers := s.answers ++ [(r, reply)] }

/-- A request arrives: `Get` and `PutAppend` up to `Start`. -/
def handle (r : Request) (gid : Gid) (i : ι) : System ι :=
  if (s.replica gid i).kv.checkRightGroup r.method.key then
    { s with handlers := s.handlers ++ [⟨gid, i, .client r, none⟩] }
  else s.respond r { err := .errWrongGroup }

/-- A handler calls `Start`. -/
def start (k : ℕ) (h : Handler ι) (index : ℕ) (isLeader : Bool) : System ι :=
  if isLeader then
    { s with handlers := s.handlers.set k { h with index := some index } }.submit h.gid
      h.task.command
  else
    let s := { s with handlers := s.handlers.eraseIdx k }
    match h.task with
    | .client r => s.respond r { err := .errWrongLeader }
    | .gc _ _ _ _ => s

/-- A handler takes the command off its channel and answers. -/
def notify (k : ℕ) (h : Handler ι) (index : ℕ) (currOp : Command) : System ι :=
  let r := s.replica h.gid h.server
  let s := { s with handlers := s.handlers.eraseIdx k }.setReplica h.gid h.server
    { r with notifyChan := Function.update r.notifyChan index none }
  match h.task with
  | .client req => s.respond req (r.kv.finish req currOp)
  | .gc cfgNum shard gid i =>
    if equalOp currOp (.gc cfgNum shard) then s.send (.gcReply gid i cfgNum shard) else s

/-- A packet arrives at a replica, or at the calling replica if it is a reply. -/
def receive (j : ι) (isLeader : Bool) : Packet ι → System ι
  | .migrateShard gid i owner configNum shard =>
    match (s.replica owner j).kv.migrateShard isLeader configNum shard with
    | some reply => s.send (.migrateShardReply gid i reply)
    | none => s
  | .migrateShardReply gid _ reply => if isLeader then s.submit gid (.migrate reply) else s
  | .gc gid i owner cfgNum shard =>
    { s with handlers := s.handlers ++ [⟨owner, j, .gc cfgNum shard gid i, none⟩] }
  | .gcReply gid i cfgNum shard =>
    s.setReplica gid i
      { s.replica gid i with kv := (s.replica gid i).kv.collected cfgNum shard }

/-- The log of a group grows. -/
def extend (gid : Gid) (command : Command) : System ι :=
  s.setGroup gid { s.groups gid with log := (s.groups gid).log ++ [command] }

/-- A replica applies the next command of its group's log, and puts it on the channel. -/
def apply (gid : Gid) (i : ι) : Option (System ι) :=
  let r := s.replica gid i
  (s.groups gid).log[r.kv.lastApplied]?.bind fun command =>
    (r.kv.execCommand command (r.kv.lastApplied + 1)).map fun v =>
      s.setReplica gid i
        ⟨v.1, Function.update r.notifyChan (r.kv.lastApplied + 1) (some v.2)⟩

/-- One step. -/
def step (H : History) (s : System ι) : Event ι → Option (System ι)
  | .call clientId method => (s.clerks.call clientId method).map fun ck => { s with clerks := ck }
  | .request r gid i => if Action.call r ∈ s.clerks.history then some (s.handle r gid i) else none
  | .start k index isLeader =>
    s.handlers[k]?.bind fun h =>
      match h.index with
      | none => some (s.start k h index isLeader)
      | some _ => none
  | .notify k =>
    s.handlers[k]?.bind fun h =>
    h.index.bind fun index =>
    ((s.replica h.gid h.server).notifyChan index).map fun currOp => s.notify k h index currOp
  | .queryConfig gid i isLeader =>
    ((s.replica gid i).kv.queryConfig isLeader H.query).map fun config =>
      s.submit gid (.config config)
  | .tryReqShardData gid i shard =>
    ((s.replica gid i).kv.shardDataReqs shard).bind fun cfgNum =>
      let config := H.query cfgNum
      -- the servers of the previous owner, if the configuration knows it
      if config.shards shard ∈ config.groups then
        some (s.send (.migrateShard gid i (config.shards shard) config.num shard))
      else none
  | .tryGC gid i cfgNum shard =>
    if (cfgNum, shard) ∈ (s.replica gid i).kv.gcList then
      let config := H.query cfgNum
      if config.shards shard ∈ config.groups then
        some (s.send (.gc gid i (config.shards shard) config.num shard))
      else none
    else none
  | .deliver k j isLeader => s.packets[k]?.map fun p => s.receive j isLeader p
  | .commit gid i k =>
    -- the replica has applied all of the log and is given one command more
    if (s.replica gid i).kv.lastApplied = (s.groups gid).log.length then
      (s.groups gid).started[k]?.bind fun command => (s.extend gid command).apply gid i
    else none
  | .apply gid i => s.apply gid i
  | .makeSnapshot gid i =>
    some (s.setGroup gid { s.groups gid with
      snapshots := (s.groups gid).snapshots ++ [(s.replica gid i).kv.makeSnapshot] })
  | .applySnapshot gid i k =>
    (s.groups gid).snapshots[k]?.bind fun d =>
      ((s.replica gid i).kv.applySnapshot d.1 d).map fun kv =>
        s.setReplica gid i { s.replica gid i with kv := kv }
  | .crash gid i k =>
    -- without a snapshot at that place the server starts from nothing
    some ({ s with handlers := s.handlers.filter fun h => ¬ (h.gid = gid ∧ h.server = i) }.setReplica
      gid i ⟨(ShardKV.init gid).restoreState (s.groups gid).snapshots[k]?, fun _ => none⟩)
  | .answer k =>
    s.answers[k]?.bind fun a =>
      if a.2.err = .ok then
        (s.clerks.ret a.1 a.2.value).map fun ck => { s with clerks := ck }
      else some s

end System

/-- The operation that a command executes in this state, if it is neither skipped nor turned away. -/
def executed (kv : ShardKV) : Command → List Op
  | .op op => if kv.performs op then [op] else []
  | _ => []

/-- The operations of a group's log that were executed there. -/
def effects (gid : Gid) (log : List Command) : List Op :=
  (log.foldl (fun p command => ((p.1.exec command).1, p.2 ++ executed p.1 command))
    (ShardKV.init gid, ([] : List Op))).2

/-- The request that an operation was made from. -/
def Op.request (op : Op) : Request :=
  ⟨op.clientId, op.callId,
    match op.opType with
    | .get => .get op.key
    | .put => .put op.key op.value
    | _ => .append op.key op.value⟩

end RaftLabs.ShardKv
