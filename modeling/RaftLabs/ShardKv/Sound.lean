import RaftLabs.ShardKv.Replay

/-!
# What the groups know of each other

Everything that a group is told of another one, it is told by an RPC, and everything that enters its
log was started by one of its replicas.  `Sound` follows the commands back to where they come from:
a configuration was started by a replica that had applied the one before, data of a shard was set
aside by the group that owned it, and data is released only when the new owner has it.  A replica is
in a state its group has gone through, but for entries that `tryGC` has taken off its `GCList`.
-/

set_option linter.unusedSectionVars false

namespace RaftLabs.ShardKv

open Lib Ctrler ShardKV

variable {H : History} {gid : Gid} {kv kv' : ShardKV}

/-! ### The controller -/

namespace History

lemma length_pos (H : History) : 0 < H.configs.length :=
  (List.getElem?_eq_some_iff.1 H.first).1

lemma config_num {n : ℕ} (h : n < H.configs.length) : (H.config n).num = n := by
  rw [config, List.getD_eq_getElem?_getD, List.getElem?_eq_getElem h]
  exact H.numbered n _ (List.getElem?_eq_getElem h)

lemma query_of_lt {n : ℕ} (h : n < H.configs.length) : H.query n = H.config n := by
  simp [query, config, List.getD_eq_getElem?_getD, h]

/-- An answer of the right number is the configuration that was asked for. -/
lemma query_eq {n : ℕ} (h : (H.query n).num = n) : H.query n = H.config n := by
  rcases Nat.lt_or_ge n H.configs.length with hlt | hge
  · exact query_of_lt hlt
  · -- otherwise the answer is the latest one, and that has a smaller number
    obtain ⟨c, hc⟩ : ∃ c, H.configs[H.configs.length - 1]? = some c :=
      ⟨_, List.getElem?_eq_getElem (Nat.sub_lt H.length_pos one_pos)⟩
    have hlast : H.query n = c := by
      rw [query, List.getD_eq_getElem?_getD, List.getElem?_eq_none hge, List.getLastD_eq_getLast?,
        List.getLast?_eq_getElem?, hc]
      rfl
    have hnum := H.numbered _ c hc
    have := H.length_pos
    rw [hlast, hnum] at h
    omega

end History

/-- A group follows configurations that exist. -/
lemma ShardKV.Local.num_lt (hl : kv.Local H gid) : kv.config.num < H.configs.length := by
  by_contra h
  have hzero : H.config kv.config.num = Config.zero := by
    rw [History.config, List.getD_eq_getElem?_getD, List.getElem?_eq_none (not_lt.1 h)]
    rfl
  have hnum : kv.config.num = 0 := by
    rw [hl.config, hzero]
    rfl
  have := H.length_pos
  omega

/-! ### The replicas -/

namespace ShardKV

/-- The same state with another `GCList`. -/
def withGC (kv : ShardKV) (l : Finset (ℕ × Shard)) : ShardKV := { kv with gcList := l }

lemma withGC_execApplyConfig (kv : ShardKV) (l : Finset (ℕ × Shard)) (config : Config) :
    (kv.withGC l).execApplyConfig config = (kv.execApplyConfig config).withGC l := by
  by_cases h : kv.config.num < config.num
  · rw [execApplyConfig_eq h, execApplyConfig_eq (show (kv.withGC l).config.num < _ from h)]
    rfl
  · rw [execApplyConfig_of_le (not_lt.1 h),
      execApplyConfig_of_le (show _ ≤ (kv.withGC l).config.num from not_lt.1 h)]

lemma withGC_execOp (kv : ShardKV) (l : Finset (ℕ × Shard)) (op : Op) :
    (kv.withGC l).execOp op = ((kv.execOp op).1.withGC l, (kv.execOp op).2) := by
  have hdone : (kv.withGC l).done op = kv.done op := rfl
  have hright : (kv.withGC l).checkRightGroup op.key = kv.checkRightGroup op.key := rfl
  unfold execOp
  rw [hdone, hright]
  cases kv.done op <;> cases kv.checkRightGroup op.key <;> rfl

lemma withGC_settle (kv : ShardKV) {l : Finset (ℕ × Shard)} (hl : l ⊆ kv.gcList)
    (m : MigrateShardReply) :
    ∃ l' ⊆ (kv.settle m).gcList, (kv.withGC l).settle m = (kv.settle m).withGC l' := by
  have hreq : (kv.withGC l).shardDataReqs m.shard = kv.shardDataReqs m.shard := rfl
  unfold settle
  rw [hreq]
  split_ifs with h
  · exact ⟨insert (m.configNum, m.shard) l, Finset.insert_subset_insert _ hl, rfl⟩
  · exact ⟨l, hl, rfl⟩

lemma withGC_execMigrationDataSync (kv : ShardKV) {l : Finset (ℕ × Shard)} (hl : l ⊆ kv.gcList)
    (m : MigrateShardReply) : ∃ l' ⊆ (kv.execMigrationDataSync m).gcList,
      (kv.withGC l).execMigrationDataSync m = (kv.execMigrationDataSync m).withGC l' := by
  have hnum : (kv.withGC l).config = kv.config := rfl
  have hmine : (kv.withGC l).myShards = kv.myShards := rfl
  unfold execMigrationDataSync
  rw [hnum, hmine]
  split_ifs
  · exact ⟨l, hl, rfl⟩
  · exact kv.withGC_settle hl m
  · exact (kv.adopt m).withGC_settle hl m

/-- The commands do not look at `GCList`, and only extend it. -/
lemma withGC_exec {l : Finset (ℕ × Shard)} (hl : l ⊆ kv.gcList) (command : Command) :
    ∃ l' ⊆ (kv.exec command).1.gcList,
      (kv.withGC l).exec command = ((kv.exec command).1.withGC l', (kv.exec command).2) := by
  cases command with
  | op op =>
    refine ⟨l, ?_, ?_⟩
    · rw [exec_op]
      split_ifs <;> exact hl
    · exact kv.tick.withGC_execOp l op
  | config config =>
    refine ⟨l, ?_, ?_⟩
    · rw [exec_config]
      by_cases h : kv.config.num < config.num
      · rw [execApplyConfig_eq (show kv.tick.config.num < _ from h)]
        exact hl
      · rw [execApplyConfig_of_le (show _ ≤ kv.tick.config.num from not_lt.1 h)]
        exact hl
    · exact congrArg (fun kv' => (kv', Command.config config))
        (kv.tick.withGC_execApplyConfig l config)
  | migrate m =>
    obtain ⟨l', hl', he⟩ := kv.tick.withGC_execMigrationDataSync hl m
    exact ⟨l', hl', congrArg (fun kv' => (kv', Command.migrate m)) he⟩
  | gc cfgNum shard => exact ⟨l, hl, rfl⟩

end ShardKV

/-- A state that the group has gone through. -/
def Version (logs : Gid → List Command) (gid : Gid) (kv : ShardKV) : Prop :=
  ∃ before, before <+: logs gid ∧ kv = replay gid before

/-- A state that a replica of the group may be in. -/
def Tracks (logs : Gid → List Command) (gid : Gid) (kv : ShardKV) : Prop :=
  ∃ kv₀ l, Version logs gid kv₀ ∧ l ⊆ kv₀.gcList ∧ kv = kv₀.withGC l

section Facts

variable {logs logs' : Gid → List Command} {history history' : List (Action Request GoString)}

/-- Logs only grow. -/
def Grow (logs logs' : Gid → List Command) : Prop := ∀ gid, logs gid <+: logs' gid

lemma Version.mono (h : Version logs gid kv) (hg : Grow logs logs') : Version logs' gid kv := by
  obtain ⟨before, hb, rfl⟩ := h
  exact ⟨before, hb.trans (hg gid), rfl⟩

lemma Tracks.mono (h : Tracks logs gid kv) (hg : Grow logs logs') : Tracks logs' gid kv := by
  obtain ⟨kv₀, l, hv, hl, rfl⟩ := h
  exact ⟨kv₀, l, hv.mono hg, hl, rfl⟩

lemma Version.tracks (h : Version logs gid kv) : Tracks logs gid kv :=
  ⟨kv, kv.gcList, h, Finset.Subset.refl _, rfl⟩

lemma version_init : Version logs gid (ShardKV.init gid) :=
  ⟨[], List.nil_prefix, rfl⟩

lemma version_replay : Version logs gid (replay gid (logs gid)) :=
  ⟨logs gid, List.prefix_rfl, rfl⟩

/-- The next command of the log, at a replica. -/
lemma Tracks.exec (h : Tracks logs gid kv) {command : Command}
    (hc : (logs gid)[kv.lastApplied]? = some command) : Tracks logs gid (kv.exec command).1 := by
  obtain ⟨kv₀, l, ⟨before, hb, rfl⟩, hl, rfl⟩ := h
  obtain ⟨l', hl', he⟩ := withGC_exec hl command
  refine ⟨_, l', ⟨before ++ [command], ?_, (replay_concat before command).symm⟩, hl', by rw [he]⟩
  have hlen : ((replay gid before).withGC l).lastApplied = before.length :=
    replay_lastApplied gid before
  rw [hlen] at hc
  obtain ⟨rest, hrest⟩ := hb
  rw [← hrest, List.getElem?_append_right le_rfl, Nat.sub_self] at hc
  cases rest with
  | nil => cases hc
  | cons c rest =>
    cases hc
    exact ⟨rest, by rw [← hrest]; simp⟩

/-- The version behind the state of a replica, with the fields they share. -/
lemma Tracks.version (h : Tracks logs gid kv) : ∃ kv₀, Version logs gid kv₀ ∧
    kv.data = kv₀.data ∧ kv.lastOp = kv₀.lastOp ∧ kv.config = kv₀.config ∧
    kv.myShards = kv₀.myShards ∧ kv.dataForMigration = kv₀.dataForMigration ∧
    kv.shardDataReqs = kv₀.shardDataReqs ∧ kv.gcList ⊆ kv₀.gcList := by
  obtain ⟨kv₀, l, hv, hl, rfl⟩ := h
  exact ⟨kv₀, hv, rfl, rfl, rfl, rfl, rfl, rfl, hl⟩

/-! ### Where commands come from -/

/-- The data has been set aside for this group by the owner of the configuration before. -/
structure Supplied (H : History) (logs : Gid → List Command) (gid : Gid) (m : MigrateShardReply) :
    Prop where
  pos : 1 ≤ m.configNum
  next : H.owner m.shard (m.configNum + 1) = gid
  other : H.owner m.shard m.configNum ≠ gid
  source : ∃ kv, Version logs (H.owner m.shard m.configNum) kv ∧
    kv.dataForMigration m.configNum m.shard = some m.data ∧ m.lastOperation = kv.lastOp

/-- The owner of configuration `n + 1` has the shard. -/
def Settled (H : History) (logs : Gid → List Command) (n : ℕ) (i : Shard) : Prop :=
  ∃ kv, Version logs (H.owner i (n + 1)) kv ∧
    (n + 1 < kv.config.num ∨ n + 1 = kv.config.num ∧ i ∈ kv.myShards)

/-- There is a reason for the command to be started in this group. -/
def Backed (H : History) (logs : Gid → List Command) (history : List (Action Request GoString))
    (gid : Gid) : Command → Prop
  | .op op => ∃ r, Action.call r ∈ history ∧ op = ShardKV.op r
  | .config config => ∃ kv, Version logs gid kv ∧ Next H kv config
  | .migrate m => Supplied H logs gid m
  | .gc cfgNum shard => Settled H logs cfgNum shard

variable {ι : Type}

/-- There is a reason for the packet to be sent. -/
def Packet.Backed (H : History) (logs : Gid → List Command) : Packet ι → Prop
  | .migrateShard gid _ owner n i => 1 ≤ n ∧ H.owner i (n + 1) = gid ∧ H.owner i n = owner ∧
      owner ≠ gid
  | .migrateShardReply gid _ m => Supplied H logs gid m
  | .gc _ _ _ n i => Settled H logs n i
  | .gcReply _ _ _ _ => True

lemma Supplied.mono {m : MigrateShardReply} (h : Supplied H logs gid m) (hg : Grow logs logs') :
    Supplied H logs' gid m := by
  obtain ⟨kv, hv, hd⟩ := h.source
  exact ⟨h.pos, h.next, h.other, kv, hv.mono hg, hd⟩

lemma Settled.mono {n : ℕ} {i : Shard} (h : Settled H logs n i) (hg : Grow logs logs') :
    Settled H logs' n i := by
  obtain ⟨kv, hv, hd⟩ := h
  exact ⟨kv, hv.mono hg, hd⟩

lemma Backed.mono {command : Command} (h : Backed H logs history gid command)
    (hg : Grow logs logs') (hh : history ⊆ history') : Backed H logs' history' gid command := by
  cases command with
  | op op =>
    obtain ⟨r, hr, he⟩ := h
    exact ⟨r, hh hr, he⟩
  | config config =>
    obtain ⟨kv, hv, hn⟩ := h
    exact ⟨kv, hv.mono hg, hn⟩
  | migrate m => exact Supplied.mono h hg
  | gc cfgNum shard => exact Settled.mono h hg

lemma Packet.Backed.mono {p : Packet ι} (h : p.Backed H logs) (hg : Grow logs logs') :
    p.Backed H logs' := by
  cases p with
  | migrateShard => exact h
  | migrateShardReply => exact Supplied.mono h hg
  | gc => exact Settled.mono h hg
  | gcReply => trivial

/-- A command that is started for a reason may stand at the end of the log. -/
lemma Backed.legit (hlaw : ∀ gid, Lawful H gid (logs gid)) {command : Command}
    (h : Backed H logs history gid command) : Legit H gid (replay gid (logs gid)) command := by
  cases command with
  | op op => trivial
  | config config =>
    obtain ⟨kv, ⟨before, hb, rfl⟩, hn⟩ := h
    have hlater := (hlaw gid).later hb
    rcases hlater.num.lt_or_eq with hlt | heq
    · exact Or.inl (by rw [hn.num]; exact hlt)
    · refine Or.inr ⟨by rw [hn.num, heq], hn.eq, ?_⟩
      simpa [noReqs] using fun i => hlater.settled heq i (hn.noReqs i)
  | migrate m =>
    obtain ⟨kv, ⟨before, hb, rfl⟩, hd, -⟩ := h.source
    exact ⟨h.pos, h.next, h.other, (((hlaw _).mono hb).books.aside _ _ _ hd).2.2⟩
  | gc cfgNum shard => trivial

end Facts

/-! ### The system -/

namespace System

variable {ι : Type} [DecidableEq ι] {s s' : System ι}

/-- The logs of all groups. -/
def logs (s : System ι) (gid : Gid) : List Command := (s.groups gid).log

structure Sound (H : History) (s : System ι) : Prop where
  lawful : ∀ gid, Lawful H gid (s.logs gid)
  logged : ∀ gid, ∀ command ∈ s.logs gid, Backed H s.logs s.clerks.history gid command
  started : ∀ gid, ∀ command ∈ (s.groups gid).started,
    Backed H s.logs s.clerks.history gid command
  packets : ∀ p ∈ s.packets, p.Backed H s.logs
  handlers : ∀ h ∈ s.handlers, Backed H s.logs s.clerks.history h.gid h.task.command
  replicas : ∀ gid i, Tracks s.logs gid (s.replica gid i).kv
  snapshots : ∀ gid, ∀ d ∈ (s.groups gid).snapshots,
    Tracks s.logs gid ((ShardKV.init gid).restoreState (some d))
  numbered : s.clerks.Numbered

lemma sound_init : Sound H (init : System ι) where
  lawful _ := lawful_nil
  logged _ _ h := absurd h List.not_mem_nil
  started _ _ h := absurd h List.not_mem_nil
  packets _ h := absurd h List.not_mem_nil
  handlers _ h := absurd h List.not_mem_nil
  replicas _ _ := version_init.tracks
  snapshots _ _ h := absurd h List.not_mem_nil
  numbered := Clerks.numbered_init

/-! ### Parts of steps -/

@[simp] lemma logs_setGroup (gid : Gid) (group : Group ι) :
    (s.setGroup gid group).logs = Function.update s.logs gid group.log := by
  funext g
  by_cases h : g = gid
  · subst h
    simp [logs, setGroup]
  · simp [logs, setGroup, h]

@[simp] lemma logs_setReplica (gid : Gid) (i : ι) (r : Replica) :
    (s.setReplica gid i r).logs = s.logs := by
  rw [setReplica, logs_setGroup]
  exact Function.update_eq_self gid s.logs

@[simp] lemma logs_submit (gid : Gid) (command : Command) :
    (s.submit gid command).logs = s.logs := by
  rw [submit, logs_setGroup]
  exact Function.update_eq_self gid s.logs

/-- What `Sound` says of one group. -/
structure SoundGroup (H : History) (logs : Gid → List Command)
    (history : List (Action Request GoString)) (gid : Gid) (group : Group ι) : Prop where
  lawful : Lawful H gid group.log
  logged : ∀ command ∈ group.log, Backed H logs history gid command
  started : ∀ command ∈ group.started, Backed H logs history gid command
  replicas : ∀ i, Tracks logs gid (group.replicas i).kv
  snapshots : ∀ d ∈ group.snapshots, Tracks logs gid ((ShardKV.init gid).restoreState (some d))

lemma SoundGroup.mono {logs logs' : Gid → List Command} {history : List (Action Request GoString)}
    {group : Group ι} (h : SoundGroup H logs history gid group) (hg : Grow logs logs') :
    SoundGroup H logs' history gid group where
  lawful := h.lawful
  logged c hc := (h.logged c hc).mono hg (List.Subset.refl _)
  started c hc := (h.started c hc).mono hg (List.Subset.refl _)
  replicas i := (h.replicas i).mono hg
  snapshots d hd := (h.snapshots d hd).mono hg

lemma Sound.group (hs : Sound H s) (gid : Gid) :
    SoundGroup H s.logs s.clerks.history gid (s.groups gid) :=
  ⟨hs.lawful gid, hs.logged gid, hs.started gid, hs.replicas gid, hs.snapshots gid⟩

/-- **One group changes**, and its log at most grows. -/
lemma Sound.setGroup (hs : Sound H s) {group : Group ι} (hlog : s.logs gid <+: group.log)
    (hg : SoundGroup H s.logs s.clerks.history gid group) : Sound H (s.setGroup gid group) := by
  have hgrow : Grow s.logs (s.setGroup gid group).logs := by
    intro g
    rw [logs_setGroup]
    by_cases h : g = gid
    · subst h
      rw [Function.update_self]
      exact hlog
    · rw [Function.update_of_ne h]
  have hgroup : ∀ g, SoundGroup H (s.setGroup gid group).logs s.clerks.history g
      ((s.setGroup gid group).groups g) := by
    intro g
    refine SoundGroup.mono ?_ hgrow
    show SoundGroup H s.logs s.clerks.history g (Function.update s.groups gid group g)
    by_cases h : g = gid
    · subst h
      rw [Function.update_self]
      exact hg
    · rw [Function.update_of_ne h]
      exact hs.group g
  exact
    { lawful := fun g => (hgroup g).lawful
      logged := fun g => (hgroup g).logged
      started := fun g => (hgroup g).started
      packets := fun p hp => (hs.packets p hp).mono hgrow
      handlers := fun h hh => (hs.handlers h hh).mono hgrow (List.Subset.refl _)
      replicas := fun g => (hgroup g).replicas
      snapshots := fun g => (hgroup g).snapshots
      numbered := hs.numbered }

/-- A replica goes to another state. -/
lemma Sound.setReplica (hs : Sound H s) {i : ι} {r : Replica} (hr : Tracks s.logs gid r.kv) :
    Sound H (s.setReplica gid i r) := by
  refine hs.setGroup List.prefix_rfl { hs.group gid with replicas := fun j => ?_ }
  show Tracks s.logs gid (Function.update (s.groups gid).replicas i r j).kv
  by_cases h : j = i
  · subst h
    rw [Function.update_self]
    exact hr
  · rw [Function.update_of_ne h]
    exact hs.replicas gid j

/-- A command is handed to `Start`. -/
lemma Sound.submit (hs : Sound H s) {command : Command}
    (hc : Backed H s.logs s.clerks.history gid command) : Sound H (s.submit gid command) := by
  refine hs.setGroup List.prefix_rfl { hs.group gid with started := fun c h => ?_ }
  rcases List.mem_append.1 h with h | h
  · exact hs.started gid c h
  · rw [List.mem_singleton.1 h]
    exact hc

/-- A snapshot is kept. -/
lemma Sound.keep (hs : Sound H s) {d : ℕ × Image}
    (hd : Tracks s.logs gid ((ShardKV.init gid).restoreState (some d))) :
    Sound H (s.setGroup gid
      { s.groups gid with snapshots := (s.groups gid).snapshots ++ [d] }) := by
  refine hs.setGroup List.prefix_rfl { hs.group gid with snapshots := fun d' h => ?_ }
  rcases List.mem_append.1 h with h | h
  · exact hs.snapshots gid d' h
  · rw [List.mem_singleton.1 h]
    exact hd

/-- The log of a group grows. -/
lemma Sound.extend (hs : Sound H s) {command : Command}
    (hc : Backed H s.logs s.clerks.history gid command) : Sound H (s.extend gid command) := by
  refine hs.setGroup (List.prefix_append _ _) { hs.group gid with
    lawful := (hs.lawful gid).concat (hc.legit hs.lawful)
    logged := fun c h => ?_ }
  rcases List.mem_append.1 h with h | h
  · exact hs.logged gid c h
  · rw [List.mem_singleton.1 h]
    exact hc

/-- A packet is sent. -/
lemma Sound.send (hs : Sound H s) {p : Packet ι} (hp : p.Backed H s.logs) :
    Sound H (s.send p) := by
  refine ⟨hs.lawful, hs.logged, hs.started, fun q hq => ?_, hs.handlers, hs.replicas,
    hs.snapshots, hs.numbered⟩
  rcases List.mem_append.1 hq with hq | hq
  · exact hs.packets q hq
  · rw [List.mem_singleton.1 hq]
    exact hp

lemma Sound.respond (hs : Sound H s) (r : Request) (reply : Reply) : Sound H (s.respond r reply) :=
  ⟨hs.lawful, hs.logged, hs.started, hs.packets, hs.handlers, hs.replicas, hs.snapshots,
    hs.numbered⟩

/-- The handlers become others. -/
lemma Sound.setHandlers (hs : Sound H s) {l : List (Handler ι)}
    (hl : ∀ h ∈ l, Backed H s.logs s.clerks.history h.gid h.task.command) :
    Sound H { s with handlers := l } :=
  ⟨hs.lawful, hs.logged, hs.started, hs.packets, hl, hs.replicas, hs.snapshots, hs.numbered⟩

/-- The clerks go on. -/
lemma Sound.setClerks (hs : Sound H s) {ck : Clerks} (hn : ck.Numbered)
    (hh : s.clerks.history ⊆ ck.history) : Sound H { s with clerks := ck } where
  lawful := hs.lawful
  logged g c hc := (hs.logged g c hc).mono (fun _ => List.prefix_rfl) hh
  started g c hc := (hs.started g c hc).mono (fun _ => List.prefix_rfl) hh
  packets := hs.packets
  handlers h hc := (hs.handlers h hc).mono (fun _ => List.prefix_rfl) hh
  replicas := hs.replicas
  snapshots := hs.snapshots
  numbered := hn

lemma logs_extend (gid : Gid) (command : Command) :
    (s.extend gid command).logs = Function.update s.logs gid (s.logs gid ++ [command]) := by
  rw [extend, logs_setGroup]
  rfl

/-- What `apply` does. -/
lemma apply_eq {i : ι} (h : s.apply gid i = some s') :
    ∃ command chan, (s.logs gid)[(s.replica gid i).kv.lastApplied]? = some command ∧
      s' = s.setReplica gid i ⟨((s.replica gid i).kv.exec command).1, chan⟩ := by
  unfold apply at h
  obtain ⟨command, hc, h⟩ := Option.bind_eq_some_iff.1 h
  obtain ⟨v, hv, rfl⟩ := Option.map_eq_some_iff.1 h
  rw [execCommand, if_neg (not_not.2 rfl)] at hv
  cases hv
  exact ⟨command, _, hc, rfl⟩

/-- A replica applies the next command. -/
lemma Sound.apply (hs : Sound H s) {i : ι} (h : s.apply gid i = some s') : Sound H s' := by
  obtain ⟨command, chan, hc, rfl⟩ := apply_eq h
  exact hs.setReplica ((hs.replicas gid i).exec hc)

/-! ### The steps -/

/-- A request arrives. -/
lemma Sound.handle (hs : Sound H s) {r : Request} (hr : Action.call r ∈ s.clerks.history)
    (i : ι) : Sound H (s.handle r gid i) := by
  unfold System.handle
  split_ifs
  · refine hs.setHandlers fun h hh => ?_
    rcases List.mem_append.1 hh with hh | hh
    · exact hs.handlers h hh
    · rw [List.mem_singleton.1 hh]
      exact ⟨r, hr, rfl⟩
  · exact hs.respond r _

/-- A handler calls `Start`. -/
lemma Sound.start (hs : Sound H s) {k : ℕ} {h : Handler ι} (hk : s.handlers[k]? = some h)
    (index : ℕ) (isLeader : Bool) : Sound H (s.start k h index isLeader) := by
  have hh := hs.handlers h (List.mem_of_getElem? hk)
  unfold System.start
  split_ifs
  · refine Sound.submit (hs.setHandlers fun h' hh' => ?_) hh
    rcases List.mem_or_eq_of_mem_set hh' with hh' | rfl
    · exact hs.handlers h' hh'
    · exact hh
  · have hs' : Sound H { s with handlers := s.handlers.eraseIdx k } :=
      hs.setHandlers fun h' hh' => hs.handlers h' (List.mem_of_mem_eraseIdx hh')
    dsimp only
    cases h.task with
    | client r => exact hs'.respond r _
    | gc => exact hs'

/-- A handler answers. -/
lemma Sound.notify (hs : Sound H s) (k : ℕ) (h : Handler ι) (index : ℕ) (currOp : Command) :
    Sound H (s.notify k h index currOp) := by
  have hs' : Sound H { s with handlers := s.handlers.eraseIdx k } :=
    hs.setHandlers fun h' hh' => hs.handlers h' (List.mem_of_mem_eraseIdx hh')
  unfold System.notify
  dsimp only
  have hs'' := hs'.setReplica (i := h.server) (r := { s.replica h.gid h.server with
    notifyChan := Function.update (s.replica h.gid h.server).notifyChan index none })
    (hs.replicas h.gid h.server)
  cases h.task with
  | client r => exact hs''.respond r _
  | gc =>
    dsimp only
    split_ifs
    · exact hs''.send trivial
    · exact hs''

/-- A packet arrives. -/
lemma Sound.receive (hs : Sound H s) {p : Packet ι} (hp : p.Backed H s.logs) (j : ι)
    (isLeader : Bool) : Sound H (s.receive j isLeader p) := by
  cases p with
  | migrateShard g i owner n shard =>
    obtain ⟨hpos, hnext, hown, hne⟩ := hp
    dsimp only [System.receive]
    split
    next reply hr =>
      refine hs.send ?_
      obtain ⟨kv₀, hv, -, hlast, -, -, hdfm, -, -⟩ := (hs.replicas owner j).version
      unfold ShardKV.migrateShard at hr
      split_ifs at hr
      obtain ⟨d, hd, rfl⟩ := Option.map_eq_some_iff.1 hr
      exact ⟨hpos, hnext, by rw [hown]; exact hne,
        kv₀, by rw [hown]; exact hv, by rw [← hdfm]; exact hd, hlast⟩
    next => exact hs
  | migrateShardReply g i m =>
    dsimp only [System.receive]
    split_ifs
    · exact hs.submit hp
    · exact hs
  | gc g i owner n shard =>
    refine hs.setHandlers fun h hh => ?_
    rcases List.mem_append.1 hh with hh | hh
    · exact hs.handlers h hh
    · rw [List.mem_singleton.1 hh]
      exact hp
  | gcReply g i n shard =>
    refine hs.setReplica ?_
    obtain ⟨kv₀, l, hv, hl, he⟩ := hs.replicas g i
    refine ⟨kv₀, l.erase (n, shard), hv, (Finset.erase_subset _ _).trans hl, ?_⟩
    show (s.replica g i).kv.collected n shard = _
    rw [he]
    rfl

/-- **Every step** keeps the system sound. -/
theorem Sound.step (hs : Sound H s) {e : Event ι} (h : System.step H s e = some s') :
    Sound H s' := by
  cases e with
  | call clientId method =>
    obtain ⟨ck, hck, rfl⟩ := Option.map_eq_some_iff.1 h
    refine hs.setClerks (hs.numbered.call hck) ?_
    rw [Clerks.call_history hck]
    exact List.subset_append_left _ _
  | request r gid i =>
    dsimp only [System.step] at h
    split_ifs at h with hr
    cases h
    exact hs.handle hr i
  | start k index isLeader =>
    obtain ⟨hd, hk, h⟩ := Option.bind_eq_some_iff.1 h
    split at h <;> cases h
    exact hs.start hk index isLeader
  | notify k =>
    obtain ⟨hd, hk, h⟩ := Option.bind_eq_some_iff.1 h
    obtain ⟨index, -, h⟩ := Option.bind_eq_some_iff.1 h
    obtain ⟨currOp, -, rfl⟩ := Option.map_eq_some_iff.1 h
    exact hs.notify k hd index currOp
  | queryConfig gid i isLeader =>
    obtain ⟨config, hq, rfl⟩ := Option.map_eq_some_iff.1 h
    refine hs.submit ?_
    obtain ⟨kv₀, hv, -, -, hcfg, -, -, hreqs, -⟩ := (hs.replicas gid i).version
    dsimp only [ShardKV.queryConfig] at hq
    split_ifs at hq with hc hnum
    cases hq
    refine ⟨kv₀, hv, by rw [← hcfg]; exact hnum, ?_, ?_⟩
    · rw [hnum]
      exact History.query_eq hnum
    · rw [← hreqs]
      simpa [noReqs] using hc.2
  | tryReqShardData gid i shard =>
    obtain ⟨n, hn, h⟩ := Option.bind_eq_some_iff.1 h
    dsimp only at h
    split_ifs at h
    cases h
    refine hs.send ?_
    obtain ⟨kv₀, ⟨before, hb, rfl⟩, -, -, hcfg, -, -, hreqs, -⟩ := (hs.replicas gid i).version
    have hbooks := ((hs.lawful gid).mono hb).books
    rw [hreqs] at hn
    obtain ⟨hpos, hnum, hnext, hother, -⟩ := hbooks.asked shard n hn
    have hlt : n < H.configs.length := by
      have := hbooks.num_lt
      omega
    rw [History.query_of_lt hlt, History.config_num hlt]
    exact ⟨hpos, hnext, rfl, hother⟩
  | tryGC gid i n shard =>
    dsimp only [System.step] at h
    split_ifs at h with hmem
    cases h
    refine hs.send ?_
    obtain ⟨kv₀, ⟨before, hb, rfl⟩, -, -, -, -, -, -, hgc⟩ := (hs.replicas gid i).version
    have hbooks := ((hs.lawful gid).mono hb).books
    obtain ⟨hown, hnum⟩ := hbooks.arrived n shard (hgc hmem)
    have hlt : n < H.configs.length := by
      have := hbooks.num_lt
      omega
    rw [History.query_of_lt hlt, History.config_num hlt]
    exact ⟨_, ⟨before, by rw [hown]; exact hb, by rw [hown]⟩, hnum⟩
  | deliver k j isLeader =>
    obtain ⟨p, hp, rfl⟩ := Option.map_eq_some_iff.1 h
    exact hs.receive (hs.packets p (List.mem_of_getElem? hp)) j isLeader
  | commit gid i k =>
    dsimp only [System.step] at h
    split_ifs at h
    obtain ⟨command, hk, h⟩ := Option.bind_eq_some_iff.1 h
    exact (hs.extend (hs.started gid command (List.mem_of_getElem? hk))).apply h
  | apply gid i => exact hs.apply h
  | makeSnapshot gid i =>
    cases h
    refine hs.keep ?_
    obtain ⟨kv₀, l, ⟨before, hb, rfl⟩, hl, he⟩ := hs.replicas gid i
    refine ⟨_, l, ⟨before, hb, rfl⟩, hl, ?_⟩
    rw [he]
    have hgid := ((hs.lawful gid).mono hb).books.gid_eq
    show ShardKV.mk _ gid _ = ShardKV.mk _ (replay gid before).gid _
    rw [hgid]
    rfl
  | applySnapshot gid i k =>
    obtain ⟨d, hd, h⟩ := Option.bind_eq_some_iff.1 h
    obtain ⟨kv, hkv, rfl⟩ := Option.map_eq_some_iff.1 h
    refine hs.setReplica ?_
    have hsnap := hs.snapshots gid d (List.mem_of_getElem? hd)
    have hgid : (s.replica gid i).kv.gid = gid := by
      obtain ⟨kv₀, l, ⟨before, hb, rfl⟩, hl, he⟩ := hs.replicas gid i
      rw [he]
      exact ((hs.lawful gid).mono hb).books.gid_eq
    unfold ShardKV.applySnapshot at hkv
    split_ifs at hkv <;> cases hkv
    · exact hs.replicas gid i
    · rw [hgid]
      exact hsnap
  | crash gid i k =>
    cases h
    have hs' : Sound H { s with handlers := s.handlers.filter fun h =>
        ¬ (h.gid = gid ∧ h.server = i) } :=
      hs.setHandlers fun h hh => hs.handlers h (List.mem_of_mem_filter hh)
    refine hs'.setReplica ?_
    cases hk : (s.groups gid).snapshots[k]? with
    | none => exact version_init.tracks
    | some d => exact hs.snapshots gid d (List.mem_of_getElem? hk)
  | answer k =>
    obtain ⟨a, -, h⟩ := Option.bind_eq_some_iff.1 h
    split_ifs at h
    · obtain ⟨ck, hck, rfl⟩ := Option.map_eq_some_iff.1 h
      refine hs.setClerks (hs.numbered.ret hck) ?_
      rw [Clerks.ret_history hck]
      exact List.subset_append_left _ _
    · cases h
      exact hs

/-- **In every run** the groups know of each other what is so. -/
theorem sound (h : Reachable (step H) anyStep (init : System ι) s) : Sound H s :=
  h.invariant sound_init fun _ _ _ _ hs _ hstep => hs.step hstep

end System

end RaftLabs.ShardKv
