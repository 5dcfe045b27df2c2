import RaftLabs.Lib.Handover
import RaftLabs.ShardKv.Sound

/-!
# Who has a shard

Shard by shard the groups hand a resource over from configuration to configuration, as in
`Lib.Handover`: applying a configuration is going to the next epoch, and data that arrives is taking
the resource (`Owned`).  So no two groups serve a shard (`exclusive_ownership`), and what a group
waits for is still with the owner before, as it was when that one gave the shard up
(`migration_data_kept`).  What every replica serves and waits for is what its configuration gives to
the group (`books_match_config`).
-/

namespace RaftLabs.ShardKv

open Lib Ctrler ShardKV

variable {ι : Type} [DecidableEq ι] {H : History} {gid : Gid} {logs : Gid → List Command}
  {command : Command} {i : Shard}

/-- How the groups see shard `i`, if that is where it is. -/
def view (logs : Gid → List Command) (i : Shard) (place : Handover.Place Gid) :
    Handover.State Gid where
  epoch g := (replay g (logs g)).config.num
  holds g := i ∈ (replay g (logs g)).myShards
  place := place

/-- Every shard is somewhere. -/
def Owned (H : History) (logs : Gid → List Command) (place : Shard → Handover.Place Gid) : Prop :=
  ∀ i, Handover.Inv (H.owner i) (view logs i (place i))

/-- The logs after one command more in the log of a group. -/
def extended (logs : Gid → List Command) (gid : Gid) (command : Command) : Gid → List Command :=
  Function.update logs gid (logs gid ++ [command])

lemma replay_extended_self : replay gid (extended logs gid command gid) =
    ((replay gid (logs gid)).exec command).1 := by
  rw [extended, Function.update_self, replay_concat]

lemma replay_extended_ne {g : Gid} (h : g ≠ gid) :
    replay g (extended logs gid command g) = replay g (logs g) := by
  rw [extended, Function.update_of_ne h]

/-- A view of the extended logs, from what the command does in its group. -/
lemma view_extended {place : Handover.Place Gid} {st : Handover.State Gid}
    (hself : st.epoch gid = ((replay gid (logs gid)).exec command).1.config.num ∧
      (st.holds gid ↔ i ∈ ((replay gid (logs gid)).exec command).1.myShards))
    (hne : ∀ g ≠ gid, st.epoch g = (replay g (logs g)).config.num ∧
      (st.holds g ↔ i ∈ (replay g (logs g)).myShards))
    (hplace : st.place = place) : view (extended logs gid command) i place = st := by
  have key : ∀ g, st.epoch g = (replay g (extended logs gid command g)).config.num ∧
      (st.holds g ↔ i ∈ (replay g (extended logs gid command g)).myShards) := by
    intro g
    by_cases h : g = gid
    · subst h
      rw [replay_extended_self]
      exact hself
    · rw [replay_extended_ne h]
      exact hne g h
  cases st
  cases hplace
  simp only [view, Handover.State.mk.injEq, and_true]
  exact ⟨funext fun g => (key g).1.symm, funext fun g => propext (key g).2.symm⟩

/-- A command that changes neither configuration nor shards. -/
lemma view_extended_same (hcfg : ((replay gid (logs gid)).exec command).1.config =
      (replay gid (logs gid)).config)
    (hmine : i ∈ ((replay gid (logs gid)).exec command).1.myShards ↔
      i ∈ (replay gid (logs gid)).myShards) (place : Handover.Place Gid) :
    view (extended logs gid command) i place = view logs i place :=
  view_extended ⟨by rw [hcfg]; rfl, hmine.symm⟩ (fun _ _ => ⟨rfl, Iff.rfl⟩) rfl

/-! ### One command more -/

section Extend

variable {place : Shard → Handover.Place Gid}

/-- Nothing is handed over. -/
lemma Owned.same (ho : Owned H logs place)
    (hcfg : ((replay gid (logs gid)).exec command).1.config = (replay gid (logs gid)).config)
    (hmine : ((replay gid (logs gid)).exec command).1.myShards = (replay gid (logs gid)).myShards) :
    Owned H (extended logs gid command) place := by
  intro i
  rw [view_extended_same hcfg (by rw [hmine])]
  exact ho i

/-- Where the shards are after a group has gone to its next configuration. -/
def afterConfig (H : History) (logs : Gid → List Command) (gid : Gid)
    (place : Shard → Handover.Place Gid) (i : Shard) : Handover.Place Gid :=
  ((view logs i (place i)).advance (H.owner i) gid).place

/-- A group goes to its next configuration. -/
lemma Owned.config (ho : Owned H logs place) (hl : (replay gid (logs gid)).Local H gid)
    {config : Config} (hn : Next H (replay gid (logs gid)) config) :
    Owned H (extended logs gid (.config config)) (afterConfig H logs gid place) := by
  intro i
  have hview : view (extended logs gid (.config config)) i (afterConfig H logs gid place i) =
      (view logs i (place i)).advance (H.owner i) gid := by
    refine view_extended ⟨?_, ?_⟩ (fun g hg => ⟨?_, ?_⟩) rfl
    · rw [Handover.epoch_advance_self, exec_config, (applyConfig_rest hn.tick).1, hn.num]
      rfl
    · rw [Handover.holds_advance_self, exec_config, hl.tick.mem_myShards_applyConfig hn.tick]
      rfl
    · rw [Handover.epoch_advance_ne hg]
      rfl
    · rw [Handover.holds_advance_ne hg]
      rfl
  rw [hview]
  refine (ho i).advance fun h1 hown => ?_
  -- nothing is asked for: the group serves what it owns, or has owned it from the start
  by_cases hmem : i ∈ (replay gid (logs gid)).myShards
  · exact Or.inl hmem
  · exact Or.inr (hl.idle i h1 hown hmem (hn.noReqs i))

/-- The group may take what it has been sent. -/
lemma Supplied.mayReceive {m : MigrateShardReply} (hm : Supplied H logs gid m)
    (hlaw : ∀ g, Lawful H g (logs g))
    (hnum : m.configNum + 1 = (replay gid (logs gid)).config.num)
    (hmissing : m.shard ∉ (replay gid (logs gid)).myShards) (p : Handover.Place Gid) :
    Handover.MayReceive (H.owner m.shard) (view logs m.shard p) gid m.configNum where
  pos := hm.pos
  epoch := hnum.symm
  next := hm.next
  other := hm.other
  left := by
    obtain ⟨kv, ⟨before, hb, rfl⟩, hd, -⟩ := hm.source
    exact (((hlaw _).mono hb).books.aside _ _ _ hd).1.trans_le ((hlaw _).later hb).num
  missing := hmissing

/-- A shard arrives. -/
lemma Owned.migrate (ho : Owned H logs place) (hlaw : ∀ g, Lawful H g (logs g))
    {m : MigrateShardReply} (hm : Supplied H logs gid m)
    (hnum : m.configNum + 1 = (replay gid (logs gid)).config.num)
    (hmissing : m.shard ∉ (replay gid (logs gid)).myShards) :
    Owned H (extended logs gid (.migrate m)) (Function.update place m.shard (.held gid)) := by
  have hexec : ((replay gid (logs gid)).exec (.migrate m)).1 =
      ((replay gid (logs gid)).tick.adopt m).settle m :=
    (exec_migrate m).trans (execMigrationDataSync_of_notMem
      (show m.configNum + 1 = (replay gid (logs gid)).tick.config.num from hnum) hmissing)
  obtain ⟨-, -, hcfg, hmy, -, -⟩ := ((replay gid (logs gid)).tick.adopt m).settle_fields m
  intro i
  by_cases hi : i = m.shard
  · subst hi
    rw [Function.update_self]
    have hview : view (extended logs gid (.migrate m)) m.shard (.held gid) =
        (view logs m.shard (place m.shard)).receive gid := by
      refine view_extended ⟨?_, ?_⟩ (fun g hg => ⟨rfl, ?_⟩) rfl
      · rw [hexec, hcfg]
        rfl
      · rw [hexec, hmy]
        simp [Handover.State.receive, adopt]
      · simp [Handover.State.receive, hg, view]
    rw [hview]
    exact (ho m.shard).receive (hm.mayReceive hlaw hnum hmissing _)
  · rw [Function.update_of_ne hi, view_extended_same]
    · exact ho i
    · rw [hexec, hcfg]
      rfl
    · rw [hexec, hmy]
      simp [adopt, hi, tick]

/-- **One command more in one log.** -/
theorem Owned.extend (ho : Owned H logs place) (hlaw : ∀ g, Lawful H g (logs g))
    {history : List (Action Request GoString)} (hc : Backed H logs history gid command) :
    ∃ place', Owned H (extended logs gid command) place' := by
  have hl := (hlaw gid).books
  have hchange := hl.change (hc.legit hlaw)
  generalize hkv : ((replay gid (logs gid)).exec command).1 = kv' at hchange
  cases hchange with
  | skip => exact ⟨place, ho.same (by rw [hkv]; rfl) (by rw [hkv]; rfl)⟩
  | config config hn => exact ⟨_, ho.config hl hn⟩
  | migrate m num missing => exact ⟨_, ho.migrate hlaw hc num missing⟩
  | gc => exact ⟨place, ho.same (by rw [hkv]; rfl) (by rw [hkv]; rfl)⟩
  | op => exact ⟨place, ho.same (by rw [hkv]; rfl) (by rw [hkv]; rfl)⟩

end Extend

/-! ### The system -/

namespace System

variable {s s' : System ι}

/-- A reply to a request is `OK` only if a handler has found the call in the table. -/
def Found (s : System ι) (a : Request × Reply) : Prop :=
  ∃ h ∈ s.handlers, h.task = .client a.1 ∧
    ∃ currOp, a.2 = (s.replica h.gid h.server).kv.finish a.1 currOp

/-- What a step shows outside of the replicas: a call, a return, a command in a log, or at most new
answers. -/
inductive Shows (s s' : System ι) : Prop
  | call (clientId : ℕ) (method : Method) (clerks : s.clerks.call clientId method = some s'.clerks)
      (answers : s'.answers = s.answers) (logs : s'.logs = s.logs)
  | ret (a : Request × Reply) (mem : a ∈ s.answers) (ok : a.2.err = .ok)
      (clerks : s.clerks.ret a.1 a.2.value = some s'.clerks) (answers : s'.answers = s.answers)
      (logs : s'.logs = s.logs)
  | commit (gid : Gid) (command : Command) (started : command ∈ (s.groups gid).started)
      (clerks : s'.clerks = s.clerks) (answers : s'.answers = s.answers)
      (logs : s'.logs = extended s.logs gid command)
  | answer (clerks : s'.clerks = s.clerks)
      (answers : ∀ a ∈ s'.answers, a.2.err = .ok → a ∈ s.answers ∨ s.Found a)
      (logs : s'.logs = s.logs)

omit [DecidableEq ι] in
/-- A step inside of the replicas, the handlers or the network. -/
lemma Shows.quiet (clerks : s'.clerks = s.clerks) (answers : s'.answers = s.answers)
    (logs : s'.logs = s.logs) : s.Shows s' :=
  .answer clerks (fun _ ha _ => Or.inl (answers ▸ ha)) logs

omit [DecidableEq ι] in
/-- A request is turned away. -/
lemma Shows.refuse (clerks : s'.clerks = s.clerks) (logs : s'.logs = s.logs) (r : Request)
    {reply : Reply} (hne : reply.err ≠ .ok) (answers : s'.answers = s.answers ++ [(r, reply)]) :
    s.Shows s' := by
  refine .answer clerks (fun a ha hok => ?_) logs
  rw [answers] at ha
  rcases List.mem_append.1 ha with ha | ha
  · exact Or.inl ha
  · rw [List.mem_singleton.1 ha] at hok
    exact absurd hok hne

/-- **What a step can show.**  The only steps that change a log are those in which a replica is the
first to apply a command. -/
lemma shows_of_step {e : Event ι} (h : step H s e = some s') : s.Shows s' := by
  cases e with
  | call clientId method =>
    obtain ⟨ck, hck, rfl⟩ := Option.map_eq_some_iff.1 h
    exact .call clientId method hck rfl rfl
  | request r gid i =>
    dsimp only [step] at h
    split_ifs at h
    cases h
    unfold handle
    split_ifs
    · exact .quiet rfl rfl rfl
    · exact .refuse rfl rfl r (by simp) rfl
  | start k index isLeader =>
    obtain ⟨hd, -, h⟩ := Option.bind_eq_some_iff.1 h
    split at h <;> cases h
    unfold System.start
    split_ifs
    · exact .quiet rfl rfl (logs_submit _ _)
    · dsimp only
      split
      next r _ => exact .refuse rfl rfl r (by simp) rfl
      next => exact .quiet rfl rfl rfl
  | notify k =>
    obtain ⟨hd, hk, h⟩ := Option.bind_eq_some_iff.1 h
    obtain ⟨index, -, h⟩ := Option.bind_eq_some_iff.1 h
    obtain ⟨currOp, -, rfl⟩ := Option.map_eq_some_iff.1 h
    unfold System.notify
    dsimp only
    split
    next r htask =>
      refine .answer rfl (fun a ha _ => ?_) (logs_setReplica _ _ _)
      rcases List.mem_append.1 ha with ha | ha
      · exact Or.inl ha
      · rw [List.mem_singleton.1 ha]
        exact Or.inr ⟨hd, List.mem_of_getElem? hk, htask, currOp, rfl⟩
    next => split_ifs <;> exact .quiet rfl rfl (logs_setReplica _ _ _)
  | queryConfig gid i isLeader =>
    obtain ⟨config, -, rfl⟩ := Option.map_eq_some_iff.1 h
    exact .quiet rfl rfl (logs_submit _ _)
  | tryReqShardData gid i shard =>
    obtain ⟨n, -, h⟩ := Option.bind_eq_some_iff.1 h
    dsimp only at h
    split_ifs at h
    cases h
    exact .quiet rfl rfl rfl
  | tryGC gid i n shard =>
    dsimp only [step] at h
    split_ifs at h
    cases h
    exact .quiet rfl rfl rfl
  | deliver k j isLeader =>
    obtain ⟨p, -, rfl⟩ := Option.map_eq_some_iff.1 h
    cases p with
    | migrateShard =>
      dsimp only [System.receive]
      split <;> exact .quiet rfl rfl rfl
    | migrateShardReply =>
      dsimp only [System.receive]
      split_ifs
      · exact .quiet rfl rfl (logs_submit _ _)
      · exact .quiet rfl rfl rfl
    | gc => exact .quiet rfl rfl rfl
    | gcReply => exact .quiet rfl rfl (logs_setReplica _ _ _)
  | commit gid i k =>
    dsimp only [step] at h
    split_ifs at h
    obtain ⟨command, hk, h⟩ := Option.bind_eq_some_iff.1 h
    obtain ⟨command', chan, -, rfl⟩ := apply_eq h
    refine .commit gid command (List.mem_of_getElem? hk) rfl rfl ?_
    rw [logs_setReplica, logs_extend]
    rfl
  | apply gid i =>
    obtain ⟨command, chan, -, rfl⟩ := apply_eq h
    exact .quiet rfl rfl (logs_setReplica _ _ _)
  | makeSnapshot gid i =>
    cases h
    refine .quiet rfl rfl ?_
    rw [logs_setGroup]
    exact Function.update_eq_self gid s.logs
  | applySnapshot gid i k =>
    obtain ⟨d, -, h⟩ := Option.bind_eq_some_iff.1 h
    obtain ⟨kv, -, rfl⟩ := Option.map_eq_some_iff.1 h
    exact .quiet rfl rfl (logs_setReplica _ _ _)
  | crash gid i k =>
    cases h
    exact .quiet rfl rfl (logs_setReplica _ _ _)
  | answer k =>
    obtain ⟨a, ha, h⟩ := Option.bind_eq_some_iff.1 h
    split_ifs at h with hok
    · obtain ⟨ck, hck, rfl⟩ := Option.map_eq_some_iff.1 h
      exact .ret a (List.mem_of_getElem? ha) hok hck rfl rfl
    · cases h
      exact .quiet rfl rfl rfl

omit [DecidableEq ι] in
lemma owned_init : Owned H (init : System ι).logs fun _ => .fresh := by
  intro i
  have hview : view (init : System ι).logs i .fresh = ⟨fun _ => 0, fun _ => False, .fresh⟩ := by
    simp [view, logs, init, ShardKV.init, Config.zero]
  rw [hview]
  exact Handover.inv_init

/-- In every run every shard is somewhere. -/
theorem owned (h : Reachable (step H) anyStep (init : System ι) s) :
    ∃ place, Owned H s.logs place := by
  refine h.invariant (P := fun s => ∃ place, Owned H s.logs place)
    ⟨_, owned_init⟩ fun s e s' hr ⟨place, ho⟩ _ hstep => ?_
  have hs := sound hr
  cases shows_of_step hstep with
  | commit gid command hc _ _ heq =>
    rw [heq]
    exact ho.extend hs.lawful (hs.started gid command hc)
  | call _ _ _ _ heq => exact ⟨place, by rw [heq]; exact ho⟩
  | ret _ _ _ _ _ heq => exact ⟨place, by rw [heq]; exact ho⟩
  | answer _ _ heq => exact ⟨place, by rw [heq]; exact ho⟩

/-- **Exclusive ownership**: in every run, whatever the configurations and however the groups go
through them, a shard is served by at most one group. -/
theorem exclusive_ownership (h : Reachable (step H) anyStep (init : System ι) s) (i : Shard)
    (g g' : Gid) (hg : i ∈ (s.state g).myShards) (hg' : i ∈ (s.state g').myShards) : g = g' := by
  obtain ⟨place, ho⟩ := owned h
  exact (ho i).exclusive hg hg'

/-- Shard `0` goes from group `1` to group `2`. -/
def twoGroups : History where
  configs :=
    let members : Groups := ⟨[⟨1, []⟩, ⟨2, []⟩], by simp [List.NodupKeys]⟩
    [Config.zero, ⟨1, fun _ => 1, members⟩, ⟨2, fun i => if i = 0 then 2 else 1, members⟩]
  first := rfl
  numbered n config h := by
    match n, h with
    | 0, h => cases h; rfl
    | 1, h => cases h; rfl
    | 2, h => cases h; rfl
    | n + 3, h => simp at h

/-- Both groups go to the second configuration; group `2` has not got the shard yet. -/
def moving : List (Event Unit) :=
  [.queryConfig 1 () true, .commit 1 () 0, .queryConfig 1 () true, .commit 1 () 1,
    .queryConfig 2 () true, .commit 2 () 0, .queryConfig 2 () true, .commit 2 () 1]

/-- Group `2` asks for the shard, and takes it over. -/
def moved : List (Event Unit) :=
  moving ++ [.tryReqShardData 2 () 0, .deliver 0 () true, .deliver 1 () true, .commit 2 () 2]

/-- The shard is with group `2` and with no other; the rest of the shards stays with group `1`. -/
theorem exclusive_ownership_moved : ∃ s : System Unit,
    Reachable (step twoGroups) anyStep init s ∧ (0 : Shard) ∈ (s.state 2).myShards ∧
    (1 : Shard) ∈ (s.state 1).myShards ∧ ∀ g, (0 : Shard) ∈ (s.state g).myShards → g = 2 := by
  have hrun : ((run (step twoGroups) init moved).map fun s =>
      decide ((0 : Shard) ∈ (s.state 2).myShards ∧ (1 : Shard) ∈ (s.state 1).myShards)) =
      some true := by decide +kernel
  obtain ⟨s, hs, hmem⟩ := Option.map_eq_some_iff.1 hrun
  have hr : Reachable (step twoGroups) anyStep init s := Reachable.init.run hs
  obtain ⟨h2, h1⟩ := of_decide_eq_true hmem
  exact ⟨s, hr, h2, h1, fun g hg => exclusive_ownership hr 0 g 2 hg h2⟩

/-- **Nothing is released early**: while a group waits for a shard of configuration `n`, the owner
of the shard in that configuration holds its data, once it has left the configuration, and it is the
data that it had when it left. -/
theorem migration_data_kept (h : Reachable (step H) anyStep (init : System ι) s) (g : Gid)
    (i : Shard) (n : ℕ) (hreq : (s.state g).shardDataReqs i = some n)
    (hleft : n < (s.state (H.owner i n)).config.num) :
    ∃ before config rest, (s.groups (H.owner i n)).log = before ++ .config config :: rest ∧
      (replay (H.owner i n) before).config.num = n ∧ config.num = n + 1 ∧
      (s.state (H.owner i n)).dataForMigration n i =
        some fun k => if key2shard k = i then (replay (H.owner i n) before).data k else none := by
  have hs := sound h
  have hl := (hs.lawful g).books
  obtain ⟨-, hnum, hnext, hother, hmissing⟩ := hl.asked i n hreq
  have hne : H.owner i (n + 1) ≠ H.owner i n := by
    rw [hnext]
    exact Ne.symm hother
  rcases (hs.lawful _).kept_or_collected hleft rfl hne with ⟨d, hd⟩ | hgc
  · obtain ⟨before, config, ⟨rest, hrest⟩, hn, hc, rfl⟩ := (hs.lawful _).setAside hd
    exact ⟨before, config, rest, by rw [← show _ = (s.groups (H.owner i n)).log from hrest]; simp,
      hn, hc, hd⟩
  · -- a release was asked for by a group that had the shard already
    obtain ⟨kv, ⟨before, hb, rfl⟩, hset⟩ := hs.logged _ _ hgc
    rw [hnext] at hb hset
    have hlater := (hs.lawful g).later hb
    have hle := hlater.num
    rcases hset with hlt | ⟨heq, hmem⟩
    · omega
    · exact absurd (hlater.served (by omega) hmem) hmissing

theorem migration_data_kept_moving : ∃ s : System Unit,
    Reachable (step twoGroups) anyStep init s ∧ (s.state 2).shardDataReqs 0 = some 1 ∧
    1 < (s.state 1).config.num ∧ ∃ d, (s.state 1).dataForMigration 1 0 = some d := by
  have hrun : ((run (step twoGroups) init moving).map fun s =>
      decide ((s.state 2).shardDataReqs 0 = some 1 ∧ 1 < (s.state 1).config.num)) = some true := by
    decide +kernel
  obtain ⟨s, hs, hmem⟩ := Option.map_eq_some_iff.1 hrun
  have hr : Reachable (step twoGroups) anyStep init s := Reachable.init.run hs
  obtain ⟨hreq, hleft⟩ := of_decide_eq_true hmem
  obtain ⟨before, config, rest, -, -, -, hd⟩ := migration_data_kept hr 2 0 1 hreq hleft
  exact ⟨s, hr, hreq, hleft, _, hd⟩

/-! ### The books of the replicas -/

/-- **The books match the configuration** in every replica of a group with a valid number, however far
it has applied the log; and a configuration in the log that is not ignored where it stands is the
next one and finds nothing waited for. -/
theorem books_match_config (h : Reachable (step H) anyStep (init : System ι) s)
    (hgid : gid ≠ invalidGid) :
    (∀ before config, before ++ [.config config] <+: s.logs gid →
      (replay gid before).config.num < config.num →
        config.num = (replay gid before).config.num + 1 ∧ (replay gid before).noReqs) ∧
    ∀ i, (∃ before l, before <+: s.logs gid ∧
      (s.replica gid i).kv = (replay gid before).withGC l) ∧ (s.replica gid i).kv.BooksMatch gid := by
  have hs := sound h
  refine ⟨fun before config hb hlt => ?_, fun i => ?_⟩
  · rcases hs.lawful gid before _ hb with hle | ⟨hnum, -, hreqs⟩
    · exact absurd hlt (not_lt.2 hle)
    · exact ⟨hnum, hreqs⟩
  · obtain ⟨kv₀, l, ⟨before, hb, rfl⟩, -, heq⟩ := hs.replicas gid i
    have hbooks := (((hs.lawful gid).mono hb).books).booksMatch hgid
    refine ⟨⟨before, l, hb, heq⟩, ?_⟩
    rw [heq]
    exact ⟨hbooks.apart, hbooks.together, hbooks.previous, hbooks.keys⟩

/-- Group `2` serves nothing yet and waits for the one shard that is its own. -/
theorem books_match_config_moving : ∃ s : System Unit,
    Reachable (step twoGroups) anyStep init s ∧ (2 : Gid) ≠ invalidGid ∧
    (s.replica 2 ()).kv.shardDataReqs 0 = some 1 ∧ (s.replica 2 ()).kv.BooksMatch 2 := by
  have hrun : ((run (step twoGroups) init moving).map fun s =>
      decide ((s.replica 2 ()).kv.shardDataReqs 0 = some 1)) = some true := by decide +kernel
  obtain ⟨s, hs, hreq⟩ := Option.map_eq_some_iff.1 hrun
  have hr : Reachable (step twoGroups) anyStep init s := Reachable.init.run hs
  have hgid : (2 : Gid) ≠ invalidGid := by decide
  exact ⟨s, hr, hgid, of_decide_eq_true hreq, ((books_match_config hr hgid).2 ()).2⟩

end System

end RaftLabs.ShardKv
