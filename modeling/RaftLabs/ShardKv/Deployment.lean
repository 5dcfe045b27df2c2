import RaftLabs.Backing
import RaftLabs.ShardKv.Linearizable

/-!
# The groups of shardkv as they are deployed

`ShardKv.System` takes one common log of every group for granted.  Here the replicas of a group are
processes of `Replicas`, with their Raft servers and the network between them; handlers and background
loops call `Start` of the Raft server in their process.  `MigrateShard` asks it with `GetState` before it
takes the lock, so the answer need not be true any more when it reads the data: it is part of the event.
So are the configurations that the loops get from the controller, and `Told` says what is expected of them.

Such a deployment implements the system, step by step: a replica that executes a command does so in
the system, where the log grows if it is the first one, and a snapshot that is captured is made there,
so that it can be installed and restored from (`Realizes`).
-/

namespace RaftLabs.ShardKv

open Lib Ctrler

variable {n : ℕ} {gid : Gid}

/-- The processes of a group, with the channels of `notifyChan` that hold a command. -/
structure Site (n : ℕ) (gid : Gid) where
  replicas : Replicas n (shardkv gid)
  notifyChan : Fin n → ℕ → Option Command

namespace Site

def init (n : ℕ) (gid : Gid) : Site n gid := ⟨Replicas.init n (shardkv gid), fun _ _ => none⟩

variable (site : Site n gid)

def server (i : Fin n) : ShardKV := (site.replicas.hosts i).service

def raft (i : Fin n) : Raft n Command Image := (site.replicas.hosts i).raft

/-- The channels after the next message of a server: what `execCommand` sends to that of the index. -/
def notified (i : Fin n) : ℕ → Option Command :=
  match (site.replicas.hosts i).batch with
  | .command c index :: _ =>
    Function.update (site.notifyChan i) index (some ((site.server i).exec c).2)
  | _ => site.notifyChan i

/-- The processes go on by themselves.  `Start` and what `tryGC` does in the background are called from
outside. -/
def step : ReplicasEvent n (shardkv gid) → Option (Site n gid)
  | .mesh (.start _ _) => none
  | .host _ (.background _) => none
  | .host i .applyMsg =>
    (site.replicas.step (.host i .applyMsg)).map fun t =>
      ⟨t, Function.update site.notifyChan i (site.notified i)⟩
  | .host i .crash =>
    (site.replicas.step (.host i .crash)).map fun t =>
      ⟨t, Function.update site.notifyChan i fun _ => none⟩
  | e => (site.replicas.step e).map fun t => { site with replicas := t }

/-- `Start` of the Raft server of process `i`: the group after it, and the index for the command if that
server is the leader. -/
def start (i : Fin n) (command : Command) : Option (Site n gid × Option ℕ) :=
  ((site.raft i).start command).bind fun r =>
    (site.replicas.step (.mesh (.start i command))).map fun t =>
      ({ site with replicas := t }, r.2.1.map Prod.fst)

/-- `tryGC` has been told that the shard is collected. -/
def collect (i : Fin n) (cfgNum : ℕ) (shard : Shard) : Option (Site n gid) :=
  (site.replicas.step (.host i (.background (cfgNum, shard)))).map fun t =>
    { site with replicas := t }

end Site

structure Deployment (n : ℕ) where
  groups : (gid : Gid) → Site n gid
  packets : List (Packet (Fin n))
  handlers : List (Handler (Fin n))
  answers : List (Request × Reply)
  clerks : Clerks

/-- What can happen next; packets, handlers and answers are named by their place.  The loops that ask
the controller get a configuration from it, and `MigrateShard` gets `isLeader` from `GetState`. -/
inductive DeploymentEvent (n : ℕ)
  | call (clientId : ℕ) (method : Method)
  | request (r : Request) (gid : Gid) (i : Fin n)
  | start (k : ℕ)
  | notify (k : ℕ)
  | queryConfig (gid : Gid) (i : Fin n) (config : Config)
  | tryReqShardData (gid : Gid) (i : Fin n) (shard : Shard) (config : Config)
  | tryGC (gid : Gid) (i : Fin n) (cfgNum : ℕ) (shard : Shard) (config : Config)
  | deliver (k : ℕ) (j : Fin n) (isLeader : Bool)
  | group (gid : Gid) (e : ReplicasEvent n (shardkv gid))
  | answer (k : ℕ)

namespace Deployment

def init (n : ℕ) : Deployment n := ⟨Site.init n, [], [], [], Clerks.init⟩

variable (d : Deployment n)

def server (gid : Gid) (i : Fin n) : ShardKV := (d.groups gid).server i

def setSite (gid : Gid) (site : Site n gid) : Deployment n :=
  { d with groups := Function.update d.groups gid site }

def send (p : Packet (Fin n)) : Deployment n := { d with packets := d.packets ++ [p] }

def respond (r : Request) (reply : Reply) : Deployment n :=
  { d with answers := d.answers ++ [(r, reply)] }

/-- A command is handed to `Start`, whatever comes of it. -/
def submit (gid : Gid) (i : Fin n) (command : Command) : Option (Deployment n) :=
  ((d.groups gid).start i command).map fun r => d.setSite gid r.1

/-- A request arrives: `Get` and `PutAppend` up to `Start`. -/
def handle (r : Request) (gid : Gid) (i : Fin n) : Deployment n :=
  if (d.server gid i).checkRightGroup r.method.key then
    { d with handlers := d.handlers ++ [⟨gid, i, .client r, none⟩] }
  else d.respond r { err := .errWrongGroup }

/-- A handler calls `Start`. -/
def start (k : ℕ) (h : Handler (Fin n)) : Option (Deployment n) :=
  ((d.groups h.gid).start h.server h.task.command).map fun r =>
    let d := d.setSite h.gid r.1
    match r.2 with
    | some index => { d with handlers := d.handlers.set k { h with index := some index } }
    | none =>
      let d := { d with handlers := d.handlers.eraseIdx k }
      match h.task with
      | .client req => d.respond req { err := .errWrongLeader }
      | .gc _ _ _ _ => d

/-- A handler takes the command off its channel and answers. -/
def notify (k : ℕ) (h : Handler (Fin n)) (index : ℕ) (currOp : Command) : Deployment n :=
  let site := d.groups h.gid
  let taken := Function.update (site.notifyChan h.server) index none
  let d := { d with handlers := d.handlers.eraseIdx k }.setSite h.gid
    { site with notifyChan := Function.update site.notifyChan h.server taken }
  match h.task with
  | .client req => d.respond req ((site.server h.server).finish req currOp)
  | .gc cfgNum shard gid i =>
    if equalOp currOp (.gc cfgNum shard) then d.send (.gcReply gid i cfgNum shard) else d

/-- A packet arrives at a replica, or at the calling replica if it is a reply. -/
def receive (j : Fin n) (isLeader : Bool) : Packet (Fin n) → Option (Deployment n)
  | .migrateShard gid i owner configNum shard =>
    match (d.server owner j).migrateShard isLeader configNum shard with
    | some reply => some (d.send (.migrateShardReply gid i reply))
    | none => some d
  | .migrateShardReply gid i reply => d.submit gid i (.migrate reply)
  | .gc gid i owner cfgNum shard =>
    some { d with handlers := d.handlers ++ [⟨owner, j, .gc cfgNum shard gid i, none⟩] }
  | .gcReply gid i cfgNum shard => ((d.groups gid).collect i cfgNum shard).map (d.setSite gid)

/-- One step. -/
def step : DeploymentEvent n → Option (Deployment n)
  | .call clientId method => (d.clerks.call clientId method).map fun ck => { d with clerks := ck }
  | .request r gid i => if Action.call r ∈ d.clerks.history then some (d.handle r gid i) else none
  | .start k =>
    d.handlers[k]?.bind fun h => if h.index = none then d.start k h else none
  | .notify k =>
    d.handlers[k]?.bind fun h =>
    h.index.bind fun index =>
    ((d.groups h.gid).notifyChan h.server index).map fun currOp => d.notify k h index currOp
  | .queryConfig gid i config =>
    ((d.server gid i).queryConfig true fun _ => config).bind fun config =>
      d.submit gid i (.config config)
  | .tryReqShardData gid i shard config =>
    if ((d.server gid i).shardDataReqs shard).isSome ∧ config.shards shard ∈ config.groups then
      some (d.send (.migrateShard gid i (config.shards shard) config.num shard))
    else none
  | .tryGC gid i cfgNum shard config =>
    if (cfgNum, shard) ∈ (d.server gid i).gcList ∧ config.shards shard ∈ config.groups then
      some (d.send (.gc gid i (config.shards shard) config.num shard))
    else none
  | .deliver k j isLeader => d.packets[k]?.bind (d.receive j isLeader)
  | .group gid (.host i .crash) =>
    ((d.groups gid).step (.host i .crash)).map fun site =>
      { d with handlers := d.handlers.filter fun h => ¬ (h.gid = gid ∧ h.server = i) }.setSite gid site
  | .group gid e => ((d.groups gid).step e).map (d.setSite gid)
  | .answer k =>
    d.answers[k]?.bind fun a =>
      if a.2.err = .ok then
        (d.clerks.ret a.1 a.2.value).map fun ck => { d with clerks := ck }
      else some d

/-- The step does not deliver an `ApplyEntries` that `P` rules out. -/
def Heeds (P : Raft n Command Image → ApplyEntriesArgs n Command → Prop) (d : Deployment n) :
    DeploymentEvent n → Prop
  | .group gid e => (d.groups gid).replicas.Heeds P e
  | _ => True

instance {P : Raft n Command Image → ApplyEntriesArgs n Command → Prop}
    [∀ rf args, Decidable (P rf args)] (d : Deployment n) (e : DeploymentEvent n) :
    Decidable (d.Heeds P e) :=
  match e with
  | .group gid e => inferInstanceAs (Decidable ((d.groups gid).replicas.Heeds P e))
  | .call _ _ | .request _ _ _ | .start _ | .notify _ | .queryConfig _ _ _ | .tryReqShardData _ _ _ _
  | .tryGC _ _ _ _ _ | .deliver _ _ _ | .answer _ => isTrue trivial

/-- The configuration with its number is in the history. -/
def Has (H : History) (config : Config) : Prop := H.configs[config.num]? = some config

/-- The configurations come from the history, and are those that were asked for where there is no check
of the number. -/
def Told (H : History) (d : Deployment n) : DeploymentEvent n → Prop
  | .queryConfig _ _ config => Has H config
  | .tryReqShardData gid i shard config =>
    Has H config ∧ (d.server gid i).shardDataReqs shard = some config.num
  | .tryGC _ _ cfgNum _ config => Has H config ∧ config.num = cfgNum
  | _ => True

end Deployment

/-! ### One group -/

/-- The states of replicas that have executed the same commands. -/
abbrev Like (gid : Gid) (kv₀ kv : ShardKV) : Prop :=
  kv.gid = gid ∧ ∃ l ⊆ kv₀.gcList, kv = kv₀.withGC l

/-- The processes of a group stand for the group of the system: the same replicas, a log that Raft
upholds, and the snapshots that were made. -/
structure Backs (site : Site n gid) (group : Group (Fin n)) : Prop where
  replicas : ∀ i, group.replicas i = ⟨site.server i, site.notifyChan i⟩
  upholds : site.replicas.Upholds (Like gid) group.log group.started
  made : site.replicas.Made fun d => d ∈ group.snapshots

section Backs

variable {site : Site n gid} {group : Group (Fin n)} {t : Replicas n (shardkv gid)} {i : Fin n}
  {command : Command}

lemma backs_init : Backs (Site.init n gid) ⟨[], [], fun _ => ⟨ShardKV.init gid, fun _ => none⟩, []⟩ :=
  ⟨fun _ => rfl, Replicas.upholds_init (faithful_shardkv gid), Replicas.made_init⟩

/-- The services of the processes do not move. -/
lemma Backs.quiet (h : Backs site group) {e : ReplicasEvent n (shardkv gid)}
    (hok : site.replicas.Heeds Raft.HoldsHidden e) (hs : site.replicas.step e = some t)
    (hstart : ∀ i c, e = .mesh (.start i c) → (site.raft i).identity = .leader → c ∈ group.started)
    (hcapture : ∀ i, e ≠ .host i .capture)
    (hservice : ∀ i, (t.hosts i).service = site.server i) :
    Backs { site with replicas := t } group := by
  refine ⟨fun i => ?_, h.upholds.step (faithful_shardkv gid) hok hs hstart,
    h.made.step h.upholds.1 hs fun i he => absurd he (hcapture i)⟩
  rw [h.replicas i, ← hservice i]
  rfl

/-- More commands are handed to `Start`. -/
lemma Backs.submit (h : Backs site group) (command : Command) :
    Backs site { group with started := group.started ++ [command] } :=
  ⟨h.replicas, h.upholds.mono fun _ hc => List.mem_append_left _ hc, h.made⟩

/-- `Start`: either nothing comes of it, or the leader has taken the command. -/
lemma Backs.start (h : Backs site group) {site' : Site n gid} {res : Option ℕ}
    (hs : site.start i command = some (site', res)) :
    (res = none ∧ Backs site' group) ∨
      (∃ index, res = some index) ∧
        Backs site' { group with started := group.started ++ [command] } := by
  obtain ⟨⟨rf, result, calls⟩, hstart, hs⟩ := Option.bind_eq_some_iff.1 hs
  obtain ⟨t, ht, heq⟩ := Option.map_eq_some_iff.1 hs
  cases heq
  have hok : site.replicas.Heeds Raft.HoldsHidden (.mesh (.start i command)) := by
    rintro _ _ _ ⟨⟩
  have hservice : ∀ i, (t.hosts i).service = site.server i := by
    obtain ⟨m, -, rfl⟩ := Option.map_eq_some_iff.1 ht
    exact fun _ => rfl
  obtain ⟨hl, rfl⟩ | ⟨hl, index, rfl⟩ := Raft.start_result hstart
  · refine Or.inl ⟨rfl, h.quiet hok ht ?_ (by rintro _ ⟨⟩) hservice⟩
    rintro j c ⟨⟩ hl'
    exact absurd hl' hl
  · refine Or.inr ⟨⟨index, rfl⟩, (h.submit command).quiet hok ht ?_ (by rintro _ ⟨⟩) hservice⟩
    rintro j c ⟨⟩ -
    exact List.mem_append_right _ (List.mem_singleton_self _)

/-- One process moves, and its replica in the system with it. -/
lemma Backs.move (h : Backs site group) {e : HostEvent n (shardkv gid)} {host : Host n (shardkv gid)}
    (group' : Group (Fin n)) (hhost : (site.replicas.hosts i).step e = some host) (chan : ℕ → Option Command)
    (hs : site.replicas.step (.host i e) = some t)
    (hrep : group'.replicas = Function.update group.replicas i ⟨host.service, chan⟩)
    (hup : site.replicas.Upholds (Like gid) group'.log group'.started)
    (hsub : ∀ d ∈ group.snapshots, d ∈ group'.snapshots)
    (hcapture : e = .capture → (site.server i).makeSnapshot ∈ group'.snapshots) :
    Backs ⟨t, Function.update site.notifyChan i chan⟩ group' := by
  obtain ⟨-, host', hhost', ht⟩ := Replicas.step_host hs
  obtain rfl : host' = host := Option.some.inj (hhost'.symm.trans hhost)
  have hhosts : t.hosts = Function.update site.replicas.hosts i host' := by
    obtain ⟨-, rfl⟩ | ⟨-, rfl⟩ := ht <;> rfl
  have hok : site.replicas.Heeds Raft.HoldsHidden (.host i e) := trivial
  refine ⟨fun j => ?_, hup.step (faithful_shardkv gid) hok hs (by rintro _ _ ⟨⟩),
    (h.made.mono hsub).step h.upholds.1 hs ?_⟩
  · rw [hrep, Site.server]
    dsimp only
    rw [hhosts]
    by_cases hj : j = i
    · subst hj
      rw [Function.update_self, Function.update_self, Function.update_self]
    · rw [Function.update_of_ne hj, Function.update_of_ne hj, Function.update_of_ne hj]
      exact h.replicas j
  · rintro j ⟨⟩
    exact hcapture rfl

end Backs

/-! ### What the system does -/

namespace System

variable {ι : Type} [DecidableEq ι] {s : System ι} {H : History} {i : ι} {command : Command}

omit [DecidableEq ι] in
lemma setGroup_self (s : System ι) (gid : Gid) : s.setGroup gid (s.groups gid) = s := by
  unfold setGroup
  rw [Function.update_eq_self]

omit [DecidableEq ι] in
lemma setGroup_setGroup (s : System ι) (gid : Gid) (group group' : Group ι) :
    (s.setGroup gid group).setGroup gid group' = s.setGroup gid group' := by
  unfold setGroup
  dsimp only
  rw [Function.update_idem]

omit [DecidableEq ι] in
lemma groups_setGroup (s : System ι) (gid : Gid) (group : Group ι) :
    (s.setGroup gid group).groups gid = group := Function.update_self ..

/-- What a replica becomes when it executes a command. -/
def advanced (r : Replica) (command : Command) : Replica :=
  ⟨(r.kv.exec command).1,
    Function.update r.notifyChan (r.kv.lastApplied + 1) (some (r.kv.exec command).2)⟩

/-- A replica executes the command of the log at its position. -/
lemma apply_of_getElem? (h : (s.groups gid).log[(s.replica gid i).kv.lastApplied]? = some command) :
    s.apply gid i = some (s.setReplica gid i (advanced (s.replica gid i) command)) := by
  unfold apply
  dsimp only
  rw [h, Option.bind_some]
  unfold ShardKV.execCommand
  rw [if_neg (not_not.2 rfl)]
  rfl

/-- The most advanced replica executes a command that was handed to `Start`. -/
lemma step_commit (H : History)
    (hlast : (s.replica gid i).kv.lastApplied = (s.groups gid).log.length)
    (hc : command ∈ (s.groups gid).started) : ∃ k, step H s (.commit gid i k) =
      some (s.setGroup gid { s.groups gid with
        log := (s.groups gid).log ++ [command]
        replicas := Function.update (s.groups gid).replicas i
          (advanced (s.replica gid i) command) }) := by
  obtain ⟨k, hk⟩ := List.mem_iff_getElem?.1 hc
  refine ⟨k, ?_⟩
  have hself : (s.extend gid command).groups gid =
      { s.groups gid with log := (s.groups gid).log ++ [command] } := groups_setGroup ..
  have hrep : (s.extend gid command).replica gid i = s.replica gid i := by
    unfold replica
    rw [hself]
  have hlog : ((s.extend gid command).groups gid).log[
      ((s.extend gid command).replica gid i).kv.lastApplied]? = some command := by
    rw [hrep, hself, hlast]
    exact List.getElem?_concat_length
  dsimp only [step]
  rw [if_pos hlast, hk, Option.bind_some, apply_of_getElem? hlog, setReplica, hself, hrep, extend,
    setGroup_setGroup]

end System

/-! ### The deployment implements the system -/

namespace Deployment

variable {d d' : Deployment n} {s s' : System (Fin n)} {H : History} {i : Fin n}

/-- The clerks and the groups cannot tell the deployment from the system. -/
structure Realizes (d : Deployment n) (s : System (Fin n)) : Prop where
  groups : ∀ gid, Backs (d.groups gid) (s.groups gid)
  packets : s.packets = d.packets
  handlers : s.handlers = d.handlers
  answers : s.answers = d.answers
  clerks : s.clerks = d.clerks

lemma realizes_init : Realizes (init n) System.init := ⟨fun _ => backs_init, rfl, rfl, rfl, rfl⟩

lemma Realizes.replica (h : Realizes d s) (gid : Gid) (i : Fin n) :
    s.replica gid i = ⟨d.server gid i, (d.groups gid).notifyChan i⟩ :=
  (h.groups gid).replicas i

lemma Realizes.kv (h : Realizes d s) (gid : Gid) (i : Fin n) :
    (s.replica gid i).kv = d.server gid i := by
  rw [h.replica gid i]

/-- One group moves. -/
lemma Realizes.setSite (h : Realizes d s) {site : Site n gid} {group : Group (Fin n)}
    (hb : Backs site group) : Realizes (d.setSite gid site) (s.setGroup gid group) := by
  refine ⟨fun g => ?_, h.packets, h.handlers, h.answers, h.clerks⟩
  show Backs (Function.update d.groups gid site g) (Function.update s.groups gid group g)
  by_cases hg : g = gid
  · subst hg
    rw [Function.update_self, Function.update_self]
    exact hb
  · rw [Function.update_of_ne hg, Function.update_of_ne hg]
    exact h.groups g

/-- One group moves, and the system does not. -/
lemma Realizes.setSite_alone (h : Realizes d s) {site : Site n gid}
    (hb : Backs site (s.groups gid)) : Realizes (d.setSite gid site) s := by
  have := h.setSite hb
  rwa [System.setGroup_self] at this

/-- **What carries the refinement**: the system can do what the deployment has done. -/
def Implements (H : History) (d : Deployment n) : Prop :=
  ∃ s, Reachable (System.step H) anyStep System.init s ∧ Realizes d s

lemma implements_init : (init n).Implements H := ⟨System.init, .init, realizes_init⟩

/-- A replica is not ahead of the log of its group. -/
lemma lastApplied_le (hr : Reachable (System.step H) anyStep System.init s) (gid : Gid) (i : Fin n) :
    (s.replica gid i).kv.lastApplied ≤ (s.groups gid).log.length := by
  obtain ⟨kv₀, l, ⟨before, hb, rfl⟩, -, heq⟩ := (System.sound hr).replicas gid i
  rw [heq]
  show (replay gid before).lastApplied ≤ _
  rw [replay_lastApplied]
  exact hb.length_le

/-- A process takes a message: the system executes the command, or installs the snapshot. -/
lemma Implements.applyMsg (hr : Reachable (System.step H) anyStep System.init s) (h : Realizes d s)
    {site : Site n gid} (hs : (d.groups gid).step (.host i .applyMsg) = some site) :
    (d.setSite gid site).Implements H := by
  obtain ⟨t, ht, rfl⟩ := Option.map_eq_some_iff.1 hs
  obtain ⟨-, host, hhost, -⟩ := Replicas.step_host ht
  have hb := h.groups gid
  have hrep := h.replica gid i
  have hstep := hhost
  dsimp only [Host.step] at hhost
  split at hhost
  · cases hhost
  · rename_i msg batch hbatch
    obtain ⟨k, hk, rfl⟩ := Option.map_eq_some_iff.1 hhost
    cases msg with
    | command c index =>
      obtain ⟨v, hv, rfl⟩ := Option.map_eq_some_iff.1 hk
      obtain ⟨rfl, hindex⟩ := ShardKV.execCommand_eq hv
      have hmem : .command c index ∈ ((d.groups gid).replicas.hosts i).batch := by
        rw [hbatch]
        exact List.mem_cons_self
      have hle := lastApplied_le hr gid i
      rw [h.kv gid i] at hle
      have hindex' : index = (d.server gid i).lastApplied + 1 := hindex
      have hchan : (d.groups gid).notified i = Function.update ((d.groups gid).notifyChan i)
          ((d.server gid i).lastApplied + 1) (some ((d.server gid i).exec c).2) := by
        unfold Site.notified
        rw [hbatch, ← hindex']
        rfl
      have hadv : System.advanced (s.replica gid i) c =
          ⟨((d.server gid i).exec c).1, (d.groups gid).notified i⟩ := by
        rw [hchan, hrep]
        rfl
      rcases hb.upholds.command hmem (by omega) with hget | ⟨hlen, hc, hup⟩
      · -- the command is in the log already
        have hlog : (s.groups gid).log[(s.replica gid i).kv.lastApplied]? = some c := by
          rw [hindex', Nat.add_sub_cancel] at hget
          rw [h.kv gid i]
          exact hget
        refine ⟨_, hr.step (.apply gid i) trivial (System.apply_of_getElem? hlog), h.setSite ?_⟩
        rw [hadv]
        exact hb.move _ hstep _ ht rfl hb.upholds (fun _ hd => hd) (by rintro ⟨⟩)
      · have hlast : (s.replica gid i).kv.lastApplied = (s.groups gid).log.length := by
          rw [h.kv gid i]
          omega
        obtain ⟨k, hcommit⟩ := System.step_commit H hlast hc
        refine ⟨_, hr.step (.commit gid i k) trivial hcommit, h.setSite ?_⟩
        rw [hadv]
        exact hb.move _ hstep _ ht rfl hup (fun _ hd => hd) (by rintro ⟨⟩)
    | snapshot data term index =>
      cases data with
      | none => cases hk
      | some data =>
        have hindex : data.index = index :=
          (shardkv gid).applySnapshot_isSome.1 (Option.isSome_of_eq_some hk)
        obtain ⟨k', hk'⟩ := List.mem_iff_getElem?.1
          (hb.made.batch i data term index (by rw [hbatch]; exact List.mem_cons_self))
        have hchan : (d.groups gid).notified i = (d.groups gid).notifyChan i := by
          unfold Site.notified
          rw [hbatch]
        have hinstall : (d.server gid i).applySnapshot data.index (data.index, data.state) = some k :=
          (congrArg (fun m => (d.server gid i).applySnapshot m (data.index, data.state)) hindex).trans hk
        refine ⟨s.setReplica gid i ⟨k, (d.groups gid).notified i⟩,
          hr.step (.applySnapshot gid i k') trivial ?_, h.setSite ?_⟩
        · dsimp only [System.step]
          rw [hk', Option.bind_some, hrep, hinstall, hchan]
          rfl
        · exact hb.move _ hstep _ ht rfl hb.upholds (fun _ hd => hd) (by rintro ⟨⟩)

/-- A step inside of a process that does not touch the service. -/
lemma service_of_step {t t' : Replicas n (shardkv gid)} {e : HostEvent n (shardkv gid)}
    (hs : t.step (.host i e) = some t') (he : e = .applyLog ∨ e = .snapshot) (j : Fin n) :
    (t'.hosts j).service = (t.hosts j).service := by
  obtain ⟨-, host, hhost, ht⟩ := Replicas.step_host hs
  have hhosts : t'.hosts = Function.update t.hosts i host := by
    obtain ⟨-, rfl⟩ | ⟨-, rfl⟩ := ht <;> rfl
  have hself : host.service = (t.hosts i).service := by
    rcases he with rfl | rfl
    · dsimp only [Host.step] at hhost
      split at hhost
      · obtain ⟨r, -, rfl⟩ := Option.map_eq_some_iff.1 hhost
        rfl
      · cases hhost
    · obtain ⟨d, -, rfl⟩ := Option.map_eq_some_iff.1 hhost
      rfl
  rw [hhosts]
  by_cases hj : j = i
  · rw [hj, Function.update_self]
    exact hself
  · rw [Function.update_of_ne hj]

/-- A process captures its state: the snapshot is made in the system. -/
lemma Implements.capture (hr : Reachable (System.step H) anyStep System.init s) (h : Realizes d s)
    {t : Replicas n (shardkv gid)} (hs : (d.groups gid).replicas.step (.host i .capture) = some t) :
    (d.setSite gid { d.groups gid with replicas := t }).Implements H := by
  have hb := h.groups gid
  obtain ⟨-, host, hhost, -⟩ := Replicas.step_host hs
  have hstep := hhost
  cases hhost
  refine ⟨_, hr.step (.makeSnapshot gid i) trivial rfl, h.setSite ?_⟩
  have hmove := hb.move
    { s.groups gid with
      snapshots := (s.groups gid).snapshots ++ [(s.replica gid i).kv.makeSnapshot] }
    hstep ((d.groups gid).notifyChan i) hs ?_ hb.upholds (fun d hd => List.mem_append_left _ hd)
    fun _ => ?_
  · rwa [Function.update_eq_self] at hmove
  · rw [show (⟨(((d.groups gid).replicas.hosts i).service), (d.groups gid).notifyChan i⟩ : Replica) =
      (s.groups gid).replicas i from (hb.replicas i).symm, Function.update_eq_self]
  · rw [h.kv gid i]
    exact List.mem_append_right _ (List.mem_singleton_self _)

/-- The processes of a group go on by themselves, short of a crash. -/
lemma Implements.site (h : d.Implements H) {e : ReplicasEvent n (shardkv gid)}
    (hok : (d.groups gid).replicas.Heeds Raft.HoldsHidden e) {site : Site n gid}
    (hs : (d.groups gid).step e = some site) (hcrash : ∀ i, e ≠ .host i .crash) :
    (d.setSite gid site).Implements H := by
  obtain ⟨s, hr, hreal⟩ := h
  have hb := hreal.groups gid
  have hquiet : ∀ t, (d.groups gid).replicas.step e = some t → (∀ i c, e ≠ .mesh (.start i c)) →
      (∀ i, e ≠ .host i .capture) → (∀ i, (t.hosts i).service = (d.groups gid).server i) →
      (d.setSite gid { d.groups gid with replicas := t }).Implements H :=
    fun t ht hstart hcapture hservice => ⟨s, hr, hreal.setSite_alone
      (hb.quiet hok ht (fun i c he => absurd he (hstart i c)) hcapture hservice)⟩
  cases e with
  | mesh e =>
    cases e with
    | start i c => cases hs
    | _ =>
      obtain ⟨t, ht, rfl⟩ := Option.map_eq_some_iff.1 hs
      refine hquiet t ht (by rintro _ _ ⟨⟩) (by rintro _ ⟨⟩) ?_
      obtain ⟨m, -, rfl⟩ := Option.map_eq_some_iff.1 ht
      exact fun _ => rfl
  | host i e =>
    cases e with
    | raft x =>
      dsimp only [Site.step] at hs
      rw [Option.map_eq_some_iff] at hs
      obtain ⟨t, ht, -⟩ := hs
      cases ht
    | background b => cases hs
    | crash => exact absurd rfl (hcrash i)
    | applyMsg => exact Implements.applyMsg hr hreal hs
    | capture =>
      dsimp only [Site.step] at hs
      rw [Option.map_eq_some_iff] at hs
      obtain ⟨t, ht, rfl⟩ := hs
      exact Implements.capture hr hreal ht
    | applyLog =>
      dsimp only [Site.step] at hs
      rw [Option.map_eq_some_iff] at hs
      obtain ⟨t, ht, rfl⟩ := hs
      exact hquiet t ht (by rintro _ _ ⟨⟩) (by rintro _ ⟨⟩)
        (service_of_step ht (Or.inl rfl))
    | snapshot =>
      dsimp only [Site.step] at hs
      rw [Option.map_eq_some_iff] at hs
      obtain ⟨t, ht, rfl⟩ := hs
      exact hquiet t ht (by rintro _ _ ⟨⟩) (by rintro _ ⟨⟩)
        (service_of_step ht (Or.inr rfl))

/-- A process crashes, with its handlers, and restarts from what it has saved. -/
lemma Implements.crash (h : d.Implements H) {site : Site n gid}
    (hs : (d.groups gid).step (.host i .crash) = some site) :
    (setSite { d with handlers := d.handlers.filter fun h => ¬ (h.gid = gid ∧ h.server = i) } gid
      site).Implements H := by
  obtain ⟨s, hr, hreal⟩ := h
  have hb := hreal.groups gid
  dsimp only [Site.step] at hs
  rw [Option.map_eq_some_iff] at hs
  obtain ⟨t, ht, rfl⟩ := hs
  obtain ⟨-, host, hhost, -⟩ := Replicas.step_host ht
  have hstep := hhost
  cases hhost
  -- the snapshot it restarts from was made in the system
  obtain ⟨k, hk⟩ : ∃ k : ℕ, (s.groups gid).snapshots[k]? =
      ((d.groups gid).replicas.hosts i).raft.persister.snapshot.map fun d => (d.index, d.state) := by
    cases hp : ((d.groups gid).replicas.hosts i).raft.persister.snapshot with
    | none => exact ⟨_, List.getElem?_eq_none le_rfl⟩
    | some data => exact List.mem_iff_getElem?.1 (hb.made.persisted hb.upholds.1 hp)
  have hreal' : Realizes
      { d with handlers := d.handlers.filter fun h => ¬ (h.gid = gid ∧ h.server = i) }
      { s with handlers := s.handlers.filter fun h => ¬ (h.gid = gid ∧ h.server = i) } :=
    ⟨hreal.groups, hreal.packets, by rw [hreal.handlers], hreal.answers, hreal.clerks⟩
  refine ⟨_, hr.step (.crash gid i k) trivial rfl, hreal'.setSite ?_⟩
  rw [hk]
  exact hb.move _ hstep _ ht rfl hb.upholds (fun _ hd => hd) (by rintro ⟨⟩)

/-! #### Handlers, packets and loops -/

lemma Realizes.respond (h : Realizes d s) (r : Request) (reply : Reply) :
    Realizes (d.respond r reply) (s.respond r reply) :=
  ⟨h.groups, h.packets, h.handlers, congrArg (· ++ [(r, reply)]) h.answers, h.clerks⟩

lemma Realizes.send (h : Realizes d s) (p : Packet (Fin n)) :
    Realizes (d.send p) (s.send p) :=
  ⟨h.groups, congrArg (· ++ [p]) h.packets, h.handlers, h.answers, h.clerks⟩

lemma Realizes.setHandlers (h : Realizes d s) (handlers : List (Handler (Fin n))) :
    Realizes { d with handlers := handlers } { s with handlers := handlers } :=
  ⟨h.groups, h.packets, rfl, h.answers, h.clerks⟩

/-- A command is handed to `Start`. -/
lemma Realizes.submit (h : Realizes d s) {command : Command}
    (hs : d.submit gid i command = some d') :
    Realizes d' s ∨ Realizes d' (s.submit gid command) := by
  obtain ⟨⟨site, res⟩, hstart, rfl⟩ := Option.map_eq_some_iff.1 hs
  obtain ⟨-, hb⟩ | ⟨-, hb⟩ := (h.groups gid).start hstart
  · exact Or.inl (h.setSite_alone hb)
  · exact Or.inr (h.setSite hb)

lemma Implements.call (h : d.Implements H) {clientId : ℕ} {method : Method}
    (hs : d.step (.call clientId method) = some d') : d'.Implements H := by
  obtain ⟨s, hr, hreal⟩ := h
  obtain ⟨ck, hck, rfl⟩ := Option.map_eq_some_iff.1 hs
  refine ⟨{ s with clerks := ck }, hr.step (.call clientId method) trivial ?_,
    hreal.groups, hreal.packets, hreal.handlers, hreal.answers, rfl⟩
  dsimp only [System.step]
  rw [hreal.clerks, hck]
  rfl

lemma Implements.request (h : d.Implements H) {r : Request}
    (hs : d.step (.request r gid i) = some d') : d'.Implements H := by
  obtain ⟨s, hr, hreal⟩ := h
  obtain ⟨hcall, hs⟩ := Option.ite_none_right_eq_some.1 hs
  cases hs
  refine ⟨s.handle r gid i, hr.step (.request r gid i) trivial (if_pos (hreal.clerks ▸ hcall)), ?_⟩
  unfold handle System.handle
  rw [hreal.kv gid i]
  split_ifs
  · rw [hreal.handlers]
    exact hreal.setHandlers _
  · exact hreal.respond r _

lemma Implements.start (h : d.Implements H) {k : ℕ} (hs : d.step (.start k) = some d') :
    d'.Implements H := by
  obtain ⟨s, hr, hreal⟩ := h
  obtain ⟨hd, hk, hs⟩ := Option.bind_eq_some_iff.1 hs
  obtain ⟨hindex, hs⟩ := Option.ite_none_right_eq_some.1 hs
  obtain ⟨⟨site, res⟩, hstart, rfl⟩ := Option.map_eq_some_iff.1 hs
  have hsys : ∀ index isLeader, System.step H s (.start k index isLeader) =
      some (s.start k hd index isLeader) := by
    intro index isLeader
    simp only [System.step, hreal.handlers, hk, Option.bind_some, hindex]
  obtain ⟨rfl, hb⟩ | ⟨⟨index, rfl⟩, hb⟩ := (hreal.groups hd.gid).start hstart
  · refine ⟨_, hr.step _ trivial (hsys 0 false), ?_⟩
    have herase := (hreal.setSite_alone hb).setHandlers (s.handlers.eraseIdx k)
    unfold System.start
    rw [if_neg Bool.false_ne_true]
    dsimp only
    rw [show (d.setSite hd.gid site).handlers = s.handlers from hreal.handlers.symm]
    cases hd.task with
    | client req => exact herase.respond req _
    | gc => exact herase
  · refine ⟨_, hr.step _ trivial (hsys index true), ?_⟩
    have hset := (hreal.setSite hb).setHandlers (s.handlers.set k { hd with index := some index })
    unfold System.start
    rw [if_pos rfl]
    dsimp only
    rw [show (d.setSite hd.gid site).handlers = s.handlers from hreal.handlers.symm]
    exact hset

/-- A handler is woken up: the command is taken off the channel on both sides. -/
lemma backs_take {site : Site n gid} {group : Group (Fin n)} (h : Backs site group) (i : Fin n)
    (index : ℕ) :
    Backs ⟨site.replicas, Function.update site.notifyChan i
        (Function.update (site.notifyChan i) index none)⟩
      ⟨group.log, group.started, Function.update group.replicas i
        ⟨(group.replicas i).kv, Function.update (group.replicas i).notifyChan index none⟩,
        group.snapshots⟩ := by
  refine ⟨fun j => ?_, h.upholds, h.made⟩
  dsimp only
  by_cases hj : j = i
  · subst hj
    rw [Function.update_self, Function.update_self, h.replicas j]
    rfl
  · rw [Function.update_of_ne hj, Function.update_of_ne hj]
    exact h.replicas j

lemma Implements.notify (h : d.Implements H) {k : ℕ} (hs : d.step (.notify k) = some d') :
    d'.Implements H := by
  obtain ⟨s, hr, hreal⟩ := h
  obtain ⟨hd, hk, hs⟩ := Option.bind_eq_some_iff.1 hs
  obtain ⟨index, hindex, hs⟩ := Option.bind_eq_some_iff.1 hs
  obtain ⟨currOp, hop, rfl⟩ := Option.map_eq_some_iff.1 hs
  refine ⟨s.notify k hd index currOp, hr.step (.notify k) trivial ?_, ?_⟩
  · dsimp only [System.step]
    rw [hreal.handlers, hk, Option.bind_some, hindex, Option.bind_some, hreal.replica]
    dsimp only
    rw [hop]
    rfl
  · have hset := (hreal.setHandlers (d.handlers.eraseIdx k)).setSite
      (backs_take (hreal.groups hd.gid) hd.server index)
    unfold Deployment.notify System.notify
    dsimp only
    rw [hreal.handlers]
    cases hd.task with
    | client req =>
      dsimp only
      rw [show (d.groups hd.gid).server hd.server = (s.replica hd.gid hd.server).kv from
        (hreal.kv hd.gid hd.server).symm]
      exact hset.respond req _
    | gc cfgNum shard g j =>
      dsimp only
      split_ifs
      · exact hset.send _
      · exact hset

lemma Implements.answer (h : d.Implements H) {k : ℕ} (hs : d.step (.answer k) = some d') :
    d'.Implements H := by
  obtain ⟨a, ha, hs⟩ := Option.bind_eq_some_iff.1 hs
  split_ifs at hs with hok
  · obtain ⟨s, hr, hreal⟩ := h
    obtain ⟨ck, hck, rfl⟩ := Option.map_eq_some_iff.1 hs
    refine ⟨{ s with clerks := ck }, hr.step (.answer k) trivial ?_,
      hreal.groups, hreal.packets, hreal.handlers, hreal.answers, rfl⟩
    dsimp only [System.step]
    rw [hreal.answers, ha, Option.bind_some, if_pos hok, hreal.clerks, hck]
    rfl
  · cases hs
    exact h

/-- `tryGC` has been told that a shard is collected. -/
lemma Realizes.collect (h : Realizes d s) {cfgNum : ℕ} {shard : Shard} {site : Site n gid}
    (hs : (d.groups gid).collect i cfgNum shard = some site) :
    Realizes (d.setSite gid site) (s.setReplica gid i
      { s.replica gid i with kv := (s.replica gid i).kv.collected cfgNum shard }) := by
  have hb := h.groups gid
  obtain ⟨t, ht, rfl⟩ := Option.map_eq_some_iff.1 hs
  obtain ⟨-, host, hhost, -⟩ := Replicas.step_host ht
  have hstep := hhost
  cases hhost
  refine h.setSite ?_
  have hmove := hb.move
    { s.groups gid with
      replicas := Function.update (s.groups gid).replicas i
        { s.replica gid i with kv := (s.replica gid i).kv.collected cfgNum shard } }
    hstep ((d.groups gid).notifyChan i) ht ?_ hb.upholds (fun _ hd => hd) (by rintro ⟨⟩)
  · rwa [Function.update_eq_self] at hmove
  · rw [h.replica gid i]
    rfl

lemma Implements.deliver (h : d.Implements H) {k : ℕ} {j : Fin n} {isLeader : Bool}
    (hs : d.step (.deliver k j isLeader) = some d') : d'.Implements H := by
  obtain ⟨s, hr, hreal⟩ := h
  obtain ⟨p, hp, hs⟩ := Option.bind_eq_some_iff.1 hs
  have hsys : ∀ isLeader, System.step H s (.deliver k j isLeader) = some (s.receive j isLeader p) := by
    intro isLeader
    dsimp only [System.step]
    rw [hreal.packets, hp]
    rfl
  cases p with
  | migrateShard g i owner configNum shard =>
    refine ⟨_, hr.step _ trivial (hsys isLeader), ?_⟩
    dsimp only [receive] at hs
    dsimp only [System.receive]
    rw [hreal.kv owner j]
    cases hm : (d.server owner j).migrateShard isLeader configNum shard with
    | none =>
      rw [hm] at hs
      cases hs
      exact hreal
    | some reply =>
      rw [hm] at hs
      cases hs
      exact hreal.send _
  | migrateShardReply g i reply =>
    rcases hreal.submit hs with hreal' | hreal'
    · exact ⟨s, hr, hreal'⟩
    · exact ⟨_, hr.step _ trivial (hsys true), hreal'⟩
  | gc g i owner cfgNum shard =>
    cases hs
    refine ⟨_, hr.step _ trivial (hsys true), ?_⟩
    dsimp only [System.receive]
    rw [hreal.handlers]
    exact hreal.setHandlers _
  | gcReply g i cfgNum shard =>
    dsimp only [receive] at hs
    rw [Option.map_eq_some_iff] at hs
    obtain ⟨site, hsite, rfl⟩ := hs
    exact ⟨_, hr.step _ trivial (hsys true), hreal.collect hsite⟩

/-- What the controller is asked for. -/
lemma query_of_has {config : Config} (h : Has H config) : H.query config.num = config := by
  unfold History.query
  rw [List.getD_eq_getElem?_getD, h]
  rfl

lemma Implements.queryConfig (h : d.Implements H) {config : Config} (hhas : Has H config)
    (hs : d.step (.queryConfig gid i config) = some d') : d'.Implements H := by
  obtain ⟨s, hr, hreal⟩ := h
  obtain ⟨config', hq, hs⟩ := Option.bind_eq_some_iff.1 hs
  have hquery : (s.replica gid i).kv.queryConfig true H.query = some config' := by
    rw [hreal.kv gid i]
    unfold ShardKV.queryConfig at hq ⊢
    dsimp only at hq ⊢
    split_ifs at hq with hreqs hnum
    rw [if_pos hreqs, ← hnum, query_of_has hhas, if_pos rfl]
    exact hq
  rcases hreal.submit hs with hreal' | hreal'
  · exact ⟨s, hr, hreal'⟩
  · refine ⟨_, hr.step (.queryConfig gid i true) trivial ?_, hreal'⟩
    dsimp only [System.step]
    rw [hquery]
    rfl

lemma Implements.tryReqShardData (h : d.Implements H) {shard : Shard} {config : Config}
    (hhas : Has H config) (hreq : (d.server gid i).shardDataReqs shard = some config.num)
    (hs : d.step (.tryReqShardData gid i shard config) = some d') : d'.Implements H := by
  obtain ⟨s, hr, hreal⟩ := h
  obtain ⟨⟨-, hmem⟩, hs⟩ := Option.ite_none_right_eq_some.1 hs
  cases hs
  refine ⟨_, hr.step (.tryReqShardData gid i shard) trivial ?_, hreal.send _⟩
  dsimp only [System.step]
  rw [hreal.kv gid i, hreq, Option.bind_some, query_of_has hhas, if_pos hmem]

lemma Implements.tryGC (h : d.Implements H) {cfgNum : ℕ} {shard : Shard} {config : Config}
    (hhas : Has H config) (hnum : config.num = cfgNum)
    (hs : d.step (.tryGC gid i cfgNum shard config) = some d') : d'.Implements H := by
  obtain ⟨s, hr, hreal⟩ := h
  obtain ⟨⟨hlist, hmem⟩, hs⟩ := Option.ite_none_right_eq_some.1 hs
  cases hs
  subst hnum
  refine ⟨_, hr.step (.tryGC gid i config.num shard) trivial ?_, hreal.send _⟩
  dsimp only [System.step]
  rw [hreal.kv gid i, if_pos hlist, query_of_has hhas, if_pos hmem]

/-- **One step of the deployment.** -/
theorem Implements.step (h : d.Implements H) {e : DeploymentEvent n}
    (hok : d.Heeds Raft.HoldsHidden e) (htold : d.Told H e) (hs : d.step e = some d') :
    d'.Implements H := by
  cases e with
  | call clientId method => exact h.call hs
  | request r gid i => exact h.request hs
  | start k => exact h.start hs
  | notify k => exact h.notify hs
  | queryConfig gid i config => exact h.queryConfig htold hs
  | tryReqShardData gid i shard config => exact h.tryReqShardData htold.1 htold.2 hs
  | tryGC gid i cfgNum shard config => exact h.tryGC htold.1 htold.2 hs
  | deliver k j isLeader => exact h.deliver hs
  | answer k => exact h.answer hs
  | group gid e =>
    by_cases hcrash : ∃ i, e = .host i .crash
    · obtain ⟨i, rfl⟩ := hcrash
      dsimp only [Deployment.step] at hs
      rw [Option.map_eq_some_iff] at hs
      obtain ⟨site, hsite, rfl⟩ := hs
      exact h.crash hsite
    · obtain ⟨site, hsite, rfl⟩ : ∃ site, (d.groups gid).step e = some site ∧
          d.setSite gid site = d' := by
        refine Option.map_eq_some_iff.1 ?_
        rw [← hs]
        cases e with
        | mesh e => rfl
        | host i e => cases e <;> first | rfl | exact absurd ⟨i, rfl⟩ hcrash
      exact h.site hok hsite fun i he => hcrash ⟨i, he⟩

end Deployment

end RaftLabs.ShardKv
