import RaftLabs.ShardCtrler.Deployment
import RaftLabs.ShardKv.Deployment

/-!
# Groups and controller together

The whole of lab 5: the controller as it is deployed, the groups of shardkv as they are deployed, and
between them the clerk `kv.sc` of every server, through which its loops ask for configurations.  A
server calls `Query` and goes on with the answer when it comes (`ask`, `told`), while the controller
executes other commands, changes its leader and loses messages.

`Deployment.Told` is not assumed here.  The configurations that a group has heard of are in the log of
the controller, so a `Query` that asks for one of them afterwards stands behind them in that log and is
answered exactly (`Timely.exact`).  Of a configuration that may not be there yet the server checks the
number itself.  So the groups follow the one history of the controller, which grows meanwhile
(`System.step_mono`).
-/

namespace RaftLabs.ShardKv

open Lib Ctrler

variable {m n : ℕ} {gid : Gid}

/-! ### The model -/

/-- Which loop of a server asks the controller, and what for. -/
inductive Purpose
  | config
  | shardData (shard : Shard)
  | gc (cfgNum : ℕ) (shard : Shard)
  deriving DecidableEq

namespace Purpose

/-- The number that the loop asks for. -/
def wanted (kv : ShardKV) : Purpose → Option ℕ
  | .config => if kv.noReqs then some (kv.config.num + 1) else none
  | .shardData shard => kv.shardDataReqs shard
  | .gc cfgNum shard => if (cfgNum, shard) ∈ kv.gcList then some cfgNum else none

/-- How the loop goes on. -/
def event (gid : Gid) (i : Fin n) (config : Config) : Purpose → DeploymentEvent n
  | .config => .queryConfig gid i config
  | .shardData shard => .tryReqShardData gid i shard config
  | .gc cfgNum shard => .tryGC gid i cfgNum shard config

end Purpose

/-- The event has nothing to do with `kv.sc`: it is not a loop that goes on with a configuration, and
not a restart, which makes a new clerk. -/
def DeploymentEvent.free : DeploymentEvent n → Bool
  | .queryConfig _ _ _ | .tryReqShardData _ _ _ _ | .tryGC _ _ _ _ _ => false
  | .group _ (.host _ .crash) => false
  | _ => true

/-- `kv.sc`: the number that it was made with, and the query it is busy with.  It has one query at a
time, as the loops hold `kv.mu` meanwhile. -/
structure Sc where
  clientId : ℕ
  query : Option (Purpose × Ctrler.Command)

structure Stack (m n : ℕ) where
  ctrler : Ctrler.Deployment m
  kv : Deployment n
  sc : Gid → Fin n → Sc

inductive StackEvent (m n : ℕ)
  | ctrler (e : Ctrler.DeploymentEvent m)
  | kv (e : DeploymentEvent n)
  | crash (gid : Gid) (i : Fin n) (clientId : ℕ)
  | ask (gid : Gid) (i : Fin n) (purpose : Purpose)
  | told (gid : Gid) (i : Fin n) (k : ℕ)

namespace Stack

def init (m n : ℕ) (clientId : Gid → Fin n → ℕ) : Stack m n :=
  ⟨Ctrler.Deployment.init m, Deployment.init n, fun gid i => ⟨clientId gid i, none⟩⟩

variable (x : Stack m n)

def setSc (gid : Gid) (i : Fin n) (sc : Sc) : Stack m n :=
  { x with sc := Function.update x.sc gid (Function.update (x.sc gid) i sc) }

/-- A server goes on with what the controller has answered, if there is something to do. -/
def goOn (gid : Gid) (i : Fin n) (purpose : Purpose) (config : Option Config) : Deployment n :=
  (config.bind fun config => x.kv.step (purpose.event gid i config)).getD x.kv

/-- One step. -/
def step : StackEvent m n → Option (Stack m n)
  | .ctrler e => (x.ctrler.step e).map fun d => { x with ctrler := d }
  | .kv e => if e.free then (x.kv.step e).map fun d => { x with kv := d } else none
  | .crash gid i clientId =>
    (x.kv.step (.group gid (.host i .crash))).map fun d =>
      { x with kv := d }.setSc gid i ⟨clientId, none⟩
  | .ask gid i purpose =>
    let sc := x.sc gid i
    if sc.query = none then
      (purpose.wanted (x.kv.server gid i)).bind fun num =>
        (x.ctrler.step (.call sc.clientId (.query num))).map fun d =>
          { x with ctrler := d }.setSc gid i
            { sc with query := (d.clerks.calling sc.clientId).map fun c => (purpose, c) }
    else none
  | .told gid i k =>
    let sc := x.sc gid i
    sc.query.bind fun q =>
      x.ctrler.answers[k]?.bind fun a =>
        -- with `kv.mu` held the server still wants what it has asked for
        if a.command = q.2 ∧ a.reply.wrongLeader = false ∧
            ((q.1.wanted (x.kv.server gid i)).map fun num : ℕ => Args.query num) = some q.2.1.args then
          (x.ctrler.step (.answer k)).map fun d =>
            { x with ctrler := d, kv := x.goOn gid i q.1 a.reply.config }.setSc gid i
              { sc with query := none }
        else none

/-- The step does not deliver an `ApplyEntries` that `Raft.HoldsHidden` rules out. -/
def Heeds (x : Stack m n) : StackEvent m n → Prop
  | .ctrler e => x.ctrler.Heeds Raft.HoldsHidden e
  | .kv e => x.kv.Heeds Raft.HoldsHidden e
  | _ => True

instance (x : Stack m n) (e : StackEvent m n) : Decidable (x.Heeds e) :=
  match e with
  | .ctrler e => inferInstanceAs (Decidable (x.ctrler.Heeds Raft.HoldsHidden e))
  | .kv e => inferInstanceAs (Decidable (x.kv.Heeds Raft.HoldsHidden e))
  | .crash _ _ _ | .ask _ _ _ | .told _ _ _ => isTrue trivial

end Stack

/-! ### A longer history -/

section History

variable {H H' : History} {ι : Type} [DecidableEq ι] {s s' : System ι} {i : ι} {shard : Shard} {num : ℕ}

lemma History.query_mono (h : H.configs <+: H'.configs) (hlt : num < H.configs.length) :
    H'.query num = H.query num := by
  rw [query_of_lt hlt, query_of_lt (hlt.trans_le h.length_le), config, config]
  obtain ⟨rest, hrest⟩ := h
  rw [← hrest, List.getD_eq_getElem?_getD, List.getD_eq_getElem?_getD, List.getElem?_append_left hlt]

namespace System

omit [DecidableEq ι] in
/-- A replica waits for data of a configuration that is there. -/
lemma Sound.waits_lt (hs : Sound H s) (h : (s.replica gid i).kv.shardDataReqs shard = some num) :
    num < H.configs.length := by
  obtain ⟨kv₀, ⟨before, hb, rfl⟩, -, -, -, -, -, hreqs, -⟩ := (hs.replicas gid i).version
  have hbooks := ((hs.lawful gid).mono hb).books
  rw [hreqs] at h
  have hnum := (hbooks.asked shard num h).2.1
  have hlt := hbooks.num_lt
  omega

omit [DecidableEq ι] in
/-- A replica releases data of a configuration that is there. -/
lemma Sound.releases_lt (hs : Sound H s) (h : (num, shard) ∈ (s.replica gid i).kv.gcList) :
    num < H.configs.length := by
  obtain ⟨kv₀, ⟨before, hb, rfl⟩, -, -, -, -, -, -, hgc⟩ := (hs.replicas gid i).version
  have hbooks := ((hs.lawful gid).mono hb).books
  have hnum := (hbooks.arrived num shard (hgc h)).2
  have hlt := hbooks.num_lt
  omega

omit [DecidableEq ι] in
/-- The configuration of a replica is one of the history. -/
lemma Sound.config_mem (hs : Sound H s) (gid : Gid) (i : ι) :
    H.configs[(s.replica gid i).kv.config.num]? = some (s.replica gid i).kv.config := by
  obtain ⟨kv₀, ⟨before, hb, rfl⟩, -, -, hcfg, -⟩ := (hs.replicas gid i).version
  have hbooks := ((hs.lawful gid).mono hb).books
  have hlt := hbooks.num_lt
  have hconfig := hbooks.config
  rw [hcfg, List.getElem?_eq_getElem hlt]
  rw [History.config, List.getD_eq_getElem?_getD, List.getElem?_eq_getElem hlt] at hconfig
  exact congrArg some hconfig.symm

/-- **What can happen stays possible when the controller goes on.** -/
lemma step_mono (h : H.configs <+: H'.configs) (hs : Sound H s) {e : Event ι}
    (hstep : step H s e = some s') : step H' s e = some s' := by
  cases e with
  | queryConfig gid i isLeader =>
    dsimp only [step] at hstep ⊢
    rw [Option.map_eq_some_iff] at hstep
    obtain ⟨config, hq, hs'⟩ := hstep
    suffices hq' : (s.replica gid i).kv.queryConfig isLeader H'.query = some config by
      rw [hq', Option.map_some, hs']
    unfold ShardKV.queryConfig at hq ⊢
    dsimp only at hq ⊢
    split_ifs at hq with hc hnum
    -- an answer with the right number is not the latest configuration in place of a missing one
    have hlt : (s.replica gid i).kv.config.num + 1 < H.configs.length := by
      by_contra hge
      have hzero : H.config ((s.replica gid i).kv.config.num + 1) = Config.zero := by
        rw [History.config, List.getD_eq_getElem?_getD, List.getElem?_eq_none (not_lt.1 hge)]
        rfl
      rw [History.query_eq hnum, hzero] at hnum
      cases hnum
    rw [if_pos hc, History.query_mono h hlt, if_pos hnum]
    exact hq
  | tryReqShardData gid i shard =>
    dsimp only [step] at hstep ⊢
    obtain ⟨num, hnum, hstep⟩ := Option.bind_eq_some_iff.1 hstep
    rw [hnum, Option.bind_some, History.query_mono h (hs.waits_lt hnum)]
    exact hstep
  | tryGC gid i num shard =>
    dsimp only [step] at hstep ⊢
    split_ifs at hstep with hmem hknown
    rw [if_pos hmem, History.query_mono h (hs.releases_lt hmem), if_pos hknown]
    exact hstep
  | _ => exact hstep

lemma reachable_mono (h : H.configs <+: H'.configs)
    (hr : Reachable (step H) anyStep (init : System ι) s) : Reachable (step H') anyStep init s :=
  hr.invariant Reachable.init fun _ e _ hr ih _ hstep =>
    ih.step e trivial (step_mono h (sound hr) hstep)

end System

end History

/-! ### The controller -/

/-- The history that a log of the controller makes. -/
def history (log : List Ctrler.Command) : History :=
  ⟨configs log, configs_zero, fun _ _ => configs_numbered⟩

/-- The query comes behind the configuration it asks for, if that one must be there. -/
def Timely (purpose : Purpose) (c : Ctrler.Command) (log : List Ctrler.Command) : Prop :=
  purpose = .config ∨ ∃ before, before <+: log ∧ c ∉ before ∧
    ∃ num : ℕ, c.1.args = .query num ∧ num < (configs before).length

section Controller

variable {log log' : List Ctrler.Command} {c : Ctrler.Command} {purpose : Purpose}

lemma order_isPrefix (h : log <+: log') : order log <+: order log' := by
  obtain ⟨more, rfl⟩ := h
  obtain ⟨l, hl⟩ := order_append log more
  exact ⟨l, hl.symm⟩

lemma history_isPrefix (h : log <+: log') : (history log).configs <+: (history log').configs := by
  obtain ⟨l, hl⟩ := order_isPrefix h
  show configs log <+: configs log'
  unfold configs
  rw [← hl]
  exact after_isPrefix _ _

lemma Timely.mono (h : Timely purpose c log) (hpre : log <+: log') : Timely purpose c log' := by
  obtain h | ⟨before, hb, h⟩ := h
  · exact Or.inl h
  · exact Or.inr ⟨before, hb.trans hpre, h⟩

/-- **A query behind a configuration is answered with it.** -/
lemma Timely.exact (h : Timely purpose c log) (hp : purpose ≠ .config) {res : Option Config}
    (hans : controller.Answered (order log) c res) :
    ∃ config, res = some config ∧ Deployment.Has (history log) config ∧
      c.1.args = .query config.num := by
  obtain h | ⟨first, hfirst, hc, num, hargs, hlt⟩ := h
  · exact absurd h hp
  obtain ⟨before, config, rfl, hbefore, hget, hle⟩ := answered_query hargs hans
  have hnum : config.num = num := by
    rcases hle (Int.natCast_nonneg num) with heq | ⟨hless, hlength⟩
    · exact_mod_cast heq
    · -- the query would have come before
      exfalso
      rcases List.prefix_or_prefix_of_prefix (order_isPrefix hfirst) hbefore with hpre | hpre
      · rcases List.prefix_concat_iff.1 hpre with heq | hpre
        · exact hc (Session.mem_of_mem_effects (heq ▸ List.mem_append_right _ List.mem_cons_self))
        · obtain ⟨rest, hrest⟩ := hpre
          have hlen : (configs first).length ≤ (controller.after before).length := by
            rw [← hrest]
            exact (after_isPrefix _ _).length_le
          omega
      · exact hc (Session.mem_of_mem_effects (hpre.subset (List.mem_append_right _ List.mem_cons_self)))
  exact ⟨config, rfl, getElem?_configs hbefore hget, by rw [hargs, hnum]⟩

end Controller

/-! ### What holds in every run -/

namespace Deployment

variable {d : Deployment n} {H H' : History} {i : Fin n}

lemma Implements.mono (hd : d.Implements H) (h : H.configs <+: H'.configs) : d.Implements H' := by
  obtain ⟨s, hr, hreal⟩ := hd
  exact ⟨s, System.reachable_mono h hr, hreal⟩

lemma told_of_free {e : DeploymentEvent n} (h : e.free) : d.Told H e := by
  cases e with
  | queryConfig _ _ _ => cases h
  | tryReqShardData _ _ _ _ => cases h
  | tryGC _ _ _ _ _ => cases h
  | _ => trivial

/-- Apart from the next configuration, the servers ask for such that are there. -/
lemma Implements.wanted_lt (hd : d.Implements H) {purpose : Purpose} (hp : purpose ≠ .config)
    {num : ℕ} (hw : purpose.wanted (d.server gid i) = some num) : num < H.configs.length := by
  obtain ⟨s, hr, hreal⟩ := hd
  rw [← hreal.kv gid i] at hw
  cases purpose with
  | config => exact absurd rfl hp
  | shardData shard => exact (System.sound hr).waits_lt hw
  | gc cfgNum shard =>
    dsimp only [Purpose.wanted] at hw
    split_ifs at hw with hmem
    cases hw
    exact (System.sound hr).releases_lt hmem

end Deployment

namespace Stack

variable {x x' : Stack m n} {log started : List Ctrler.Command} {i : Fin n} {purpose : Purpose}

structure Inv (x : Stack m n) (log started : List Ctrler.Command) : Prop where
  ctrler : x.ctrler.Inv log started
  kv : x.kv.Implements (history log)
  queries : ∀ gid i purpose c, (x.sc gid i).query = some (purpose, c) → Timely purpose c log

lemma inv_init (clientId : Gid → Fin n → ℕ) : (init m n clientId).Inv [] [] :=
  ⟨Ctrler.Deployment.inv_init, Deployment.implements_init, fun _ _ _ _ h => nomatch h⟩

lemma Inv.setSc (hi : x.Inv log started) {sc : Sc}
    (hsc : ∀ purpose c, sc.query = some (purpose, c) → Timely purpose c log) :
    (x.setSc gid i sc).Inv log started := by
  refine ⟨hi.ctrler, hi.kv, fun g j purpose c h => ?_⟩
  dsimp only [Stack.setSc] at h
  by_cases hg : g = gid
  · subst hg
    rw [Function.update_self] at h
    by_cases hj : j = i
    · subst hj
      rw [Function.update_self] at h
      exact hsc purpose c h
    · rw [Function.update_of_ne hj] at h
      exact hi.queries g j purpose c h
  · rw [Function.update_of_ne hg] at h
    exact hi.queries g j purpose c h

/-- The controller goes on. -/
lemma Inv.ctrlerStep (hi : x.Inv log started) {e : Ctrler.DeploymentEvent m}
    {d : Ctrler.Deployment m} (hs : x.ctrler.step e = some d)
    (hok : x.ctrler.Heeds Raft.HoldsHidden e) :
    ∃ log' started', log <+: log' ∧ Inv { x with ctrler := d } log' started' := by
  obtain ⟨log', started', hpre, hi'⟩ := hi.ctrler.step hok hs
  exact ⟨log', started', hpre, hi', hi.kv.mono (history_isPrefix hpre),
    fun gid i purpose c h => (hi.queries gid i purpose c h).mono hpre⟩

/-- The groups go on. -/
lemma Inv.kvStep (hi : x.Inv log started) {e : DeploymentEvent n} {d : Deployment n}
    (hs : x.kv.step e = some d) (hok : x.kv.Heeds Raft.HoldsHidden e)
    (htold : x.kv.Told (history log) e) : Inv { x with kv := d } log started :=
  ⟨hi.ctrler, hi.kv.step hok htold hs, hi.queries⟩

/-- A server asks. -/
lemma Inv.ask (hi : x.Inv log started) (hs : x.step (.ask gid i purpose) = some x') :
    ∃ log' started', x'.Inv log' started' := by
  dsimp only [step] at hs
  split_ifs at hs
  obtain ⟨num, hwanted, hs⟩ := Option.bind_eq_some_iff.1 hs
  obtain ⟨d, hd, rfl⟩ := Option.map_eq_some_iff.1 hs
  obtain ⟨log', started', hpre, hi'⟩ := hi.ctrlerStep hd trivial
  refine ⟨log', started', hi'.setSc fun p c h => ?_⟩
  obtain ⟨c', hc', heq⟩ := Option.map_eq_some_iff.1 h
  cases heq
  by_cases hp : purpose = .config
  · exact Or.inl hp
  · dsimp only [Ctrler.Deployment.step] at hd
    split_ifs at hd with hr
    obtain ⟨ck, hck, rfl⟩ := Option.map_eq_some_iff.1 hd
    cases (Clients.calling_call hck).symm.trans hc'
    exact Or.inr ⟨log, hpre, fun hmem => hi.ctrler.numbered.fresh hck (hi.ctrler.logged _ hmem),
      num, rfl, hi.kv.wanted_lt hp hwanted⟩

/-- What the server is told is what `Deployment.Told` expects. -/
lemma Inv.told_of_answer (hi : x.Inv log started) {c : Ctrler.Command}
    (hq : (x.sc gid i).query = some (purpose, c)) {a : Answer} (ha : a ∈ x.ctrler.answers)
    (hc : a.command = c) (hok : a.reply.wrongLeader = false) {num : ℕ}
    (hwanted : purpose.wanted (x.kv.server gid i) = some num) (hargs : c.1.args = .query num)
    {config : Config} (hconfig : a.reply.config = some config) :
    x.kv.Told (history log) (purpose.event gid i config) := by
  have hans := hi.ctrler.answers a ha hok
  rw [hc, hconfig] at hans
  have hexact : purpose ≠ .config → Deployment.Has (history log) config ∧ config.num = num := by
    intro hp
    obtain ⟨config', heq, hhas, hargs'⟩ := (hi.queries gid i purpose c hq).exact hp hans
    cases heq
    rw [hargs] at hargs'
    exact ⟨hhas, by simpa using (Args.query.inj hargs').symm⟩
  cases purpose with
  | config =>
    obtain ⟨before, config', heq, hbefore, hget, -⟩ := answered_query hargs hans
    cases heq
    exact getElem?_configs hbefore hget
  | shardData shard =>
    obtain ⟨hhas, rfl⟩ := hexact (by rintro ⟨⟩)
    exact ⟨hhas, hwanted⟩
  | gc cfgNum shard =>
    obtain ⟨hhas, rfl⟩ := hexact (by rintro ⟨⟩)
    dsimp only [Purpose.wanted] at hwanted
    split_ifs at hwanted
    exact ⟨hhas, (Option.some.inj hwanted).symm⟩

/-- A server is answered. -/
lemma Inv.told (hi : x.Inv log started) {k : ℕ} (hs : x.step (.told gid i k) = some x') :
    ∃ log' started', x'.Inv log' started' := by
  dsimp only [step] at hs
  obtain ⟨⟨purpose, c⟩, hq, hs⟩ := Option.bind_eq_some_iff.1 hs
  obtain ⟨a, ha, hs⟩ := Option.bind_eq_some_iff.1 hs
  obtain ⟨⟨hc, hok, hwanted⟩, hs⟩ := Option.ite_none_right_eq_some.1 hs
  obtain ⟨d, hd, rfl⟩ := Option.map_eq_some_iff.1 hs
  obtain ⟨num, hnum, hargs⟩ := Option.map_eq_some_iff.1 hwanted
  have hgoOn : Inv { x with kv := x.goOn gid i purpose a.reply.config } log started := by
    unfold goOn
    cases hkv : a.reply.config.bind fun config => x.kv.step (purpose.event gid i config) with
    | none => exact hi
    | some kv =>
      obtain ⟨config, hconfig, hkv⟩ := Option.bind_eq_some_iff.1 hkv
      refine hi.kvStep hkv ?_ (hi.told_of_answer hq (List.mem_of_getElem? ha) hc hok hnum hargs.symm
        hconfig)
      cases purpose <;> trivial
  obtain ⟨log', started', -, hi'⟩ := hgoOn.ctrlerStep hd trivial
  exact ⟨log', started', hi'.setSc fun _ _ h => nomatch h⟩

/-- **One step.** -/
theorem Inv.step (hi : x.Inv log started) {e : StackEvent m n} (hok : x.Heeds e)
    (hs : x.step e = some x') : ∃ log' started', x'.Inv log' started' := by
  cases e with
  | ctrler e =>
    obtain ⟨d, hd, rfl⟩ := Option.map_eq_some_iff.1 hs
    obtain ⟨log', started', -, hi'⟩ := hi.ctrlerStep hd hok
    exact ⟨log', started', hi'⟩
  | kv e =>
    obtain ⟨hfree, hs⟩ := Option.ite_none_right_eq_some.1 hs
    obtain ⟨d, hd, rfl⟩ := Option.map_eq_some_iff.1 hs
    exact ⟨log, started, hi.kvStep hd hok (Deployment.told_of_free hfree)⟩
  | crash gid i clientId =>
    dsimp only [Stack.step] at hs
    rw [Option.map_eq_some_iff] at hs
    obtain ⟨d, hd, rfl⟩ := hs
    exact ⟨log, started, (hi.kvStep hd trivial trivial).setSc fun _ _ h => nomatch h⟩
  | ask gid i purpose => exact hi.ask hs
  | told gid i k => exact hi.told hs

lemma exists_inv {clientId : Gid → Fin n → ℕ} (h : Reachable step Heeds (init m n clientId) x) :
    ∃ log started, x.Inv log started :=
  h.invariant (P := fun x => ∃ log started, Inv x log started) ⟨[], [], inv_init clientId⟩
    fun _ _ _ _ ⟨_, _, hi⟩ hok hs => hi.step hok hs

/-! ### The theorem -/

/-- What the deployment of lab 5 guarantees: the controller executes `log`, every group its log of
`logs`, and the operations of the clerks take effect in `order`. -/
structure Correct (x : Stack m n) (log : List Ctrler.Command) (logs : Gid → List Command)
    (order : List (Gid × Request)) : Prop where
  /-- The controller has one history of configurations. -/
  controller : x.ctrler.Correct log
  /-- The groups follow it. -/
  configs : ∀ gid i, (Ctrler.configs log)[(x.kv.server gid i).config.num]? =
    some (x.kv.server gid i).config
  /-- The servers of a group execute its log. -/
  replicas : ∀ gid i, Tracks logs gid (x.kv.server gid i)
  /-- The order is made of the executions of all groups, each in the order of its log. -/
  groups : ∀ g, (order.filter fun p => p.1 = g).map (fun p => ShardKV.op p.2) = effects g (logs g)
  /-- What the clerks return is what one map answers, in this order. -/
  sequential : Linearization store x.kv.clerks.history (order.map Prod.snd)
  /-- A call that has returned was executed once, on one group. -/
  exactlyOnce : ∀ r res, Action.ret r res ∈ x.kv.clerks.history →
    ∃ g, (effects g (logs g)).count (ShardKV.op r) = 1 ∧ ∀ g' ≠ g, ShardKV.op r ∉ effects g' (logs g')
  /-- At the ends of the logs a shard is served by one group at most. -/
  exclusive : ∀ shard g g', shard ∈ (replay g (logs g)).myShards →
    shard ∈ (replay g' (logs g')).myShards → g = g'

/-- **Lab 5 is linearizable over this Raft**: controller, groups and clerks, with any number of servers
each, any interleaving, with messages lost, delayed and reordered, requests sent again, crashes of all
servers, and reconfigurations going on meanwhile, in the runs that heed `Raft.HoldsHidden`. -/
theorem linearizable_with_controller {clientId : Gid → Fin n → ℕ}
    (h : Reachable step Heeds (init m n clientId) x) :
    ∃ log logs order, x.Correct log logs order := by
  obtain ⟨log, started, hi⟩ := exists_inv h
  obtain ⟨s, hr, hreal⟩ := hi.kv
  have hs := System.sound hr
  obtain ⟨order, hl⟩ := System.linear hr
  obtain ⟨place, he⟩ := hl.1
  refine ⟨log, s.logs, order, hi.ctrler.correct, fun gid i => ?_, fun gid i => ?_, he.groups,
    hreal.clerks ▸ he.linear, fun r res hret => ?_, fun shard g g' hg hg' => ?_⟩
  · rw [← hreal.kv gid i]
    exact hs.config_mem gid i
  · rw [← hreal.kv gid i]
    exact hs.replicas gid i
  · rw [← hreal.clerks] at hret
    exact hl.exactlyOnce (he.linear.answers r res hret).mem
  · exact (he.owned shard).exclusive hg hg'

/-- Server `0` of the controller executes a command. -/
def ctrlerExecutes (c : Ctrler.Command) : List (StackEvent 2 2) :=
  [.ctrler (.request c 0), .ctrler (.start 0), .ctrler (.replicas (.mesh (.deliver 0))),
    .ctrler (.replicas (.mesh (.deliver 0))), .ctrler (.replicas (.host 0 .applyLog)),
    .ctrler (.replicas (.host 0 .applyMsg)), .ctrler (.replicas (.host 0 (.background ()))),
    .ctrler (.wake 0 1)]

/-- A group joins. -/
def joins (callId : ℕ) (gid : Gid) : List (StackEvent 2 2) :=
  List.flatten [[.ctrler (.call 0 (.join (AList.singleton gid [])))],
    ctrlerExecutes ⟨⟨0, callId, .join (AList.singleton gid [])⟩, trivial⟩, [.ctrler (.answer callId)]]

/-- A group elects its server `0`. -/
def elects (gid : Gid) : List (StackEvent 2 2) :=
  [.kv (.group gid (.mesh (.electionTimeout 0))), .kv (.group gid (.mesh (.deliver 0))),
    .kv (.group gid (.mesh (.deliver 0)))]

/-- Server `0` of a group executes what it was given. -/
def executes (gid : Gid) : List (StackEvent 2 2) :=
  [.kv (.group gid (.mesh (.deliver 0))), .kv (.group gid (.mesh (.deliver 0))),
    .kv (.group gid (.host 0 .applyLog)), .kv (.group gid (.host 0 .applyMsg))]

/-- It asks for a configuration, and is given answer `k`. -/
def asks (gid : Gid) (purpose : Purpose) (callId num k : ℕ) : List (StackEvent 2 2) :=
  have hrange : Op.InRange ⟨gid.toNat, callId, .query num⟩ := (by decide : (-1 : ℤ) ≤ 0).trans
    (Int.natCast_nonneg num)
  List.flatten [[.ask gid 0 purpose], ctrlerExecutes ⟨⟨gid.toNat, callId, .query num⟩, hrange⟩,
    [.told gid 0 k]]

/-- A clerk calls it, and is given answer `k`. -/
def serves (gid : Gid) (r : Request) (k : ℕ) : List (StackEvent 2 2) :=
  List.flatten [[.kv (.call r.clientId r.method), .kv (.request r gid 0), .kv (.start 0)],
    executes gid, [.kv (.notify 0), .kv (.answer k)]]

/-- Groups `1` and `2` join.  A clerk appends to a key of shard `5` in group `1`, which has reached the
first configuration; the second one gives the shard to group `2`, which asks for its data.  The clerk
reads the key there. -/
def handedOver : List (StackEvent 2 2) :=
  List.flatten [
    [.ctrler (.replicas (.mesh (.electionTimeout 0))), .ctrler (.replicas (.mesh (.deliver 0))),
      .ctrler (.replicas (.mesh (.deliver 0)))], joins 0 1, joins 1 2, elects 1, elects 2,
    asks 1 .config 0 1 2, executes 1, serves 1 ⟨0, 0, .append [5] [7]⟩ 0,
    asks 1 .config 1 2 3, executes 1, asks 2 .config 0 1 4, executes 2,
    [.crash 2 1 3, .ctrler (.replicas (.host 1 .crash))],
    asks 2 .config 1 2 5, executes 2, asks 2 (.shardData 5) 2 1 6,
    [.kv (.deliver 0 0 true), .kv (.deliver 1 0 true)], executes 2, serves 2 ⟨0, 1, .get [5]⟩ 1]

theorem linearizable_with_controller_handedOver : ∃ (x : Stack 2 2) (log : List Ctrler.Command)
    (logs : Gid → List Command) (order : List (Gid × Request)),
    Reachable step Heeds (init 2 2 fun gid _ => gid.toNat) x ∧ x.kv.clerks.history =
      [.call ⟨0, 0, .append [5] [7]⟩, .ret ⟨0, 0, .append [5] [7]⟩ [],
        .call ⟨0, 1, .get [5]⟩, .ret ⟨0, 1, .get [5]⟩ [7]] ∧ x.Correct log logs order := by
  have hrun : ((run (guarded step Heeds) (init 2 2 fun gid _ => gid.toNat) handedOver).map fun x =>
      x.kv.clerks.history) = some [.call ⟨0, 0, .append [5] [7]⟩, .ret ⟨0, 0, .append [5] [7]⟩ [],
        .call ⟨0, 1, .get [5]⟩, .ret ⟨0, 1, .get [5]⟩ [7]] := by
    decide +kernel
  obtain ⟨x, hx, hhist⟩ := Option.map_eq_some_iff.1 hrun
  have hr := Reachable.init.run_guarded hx
  obtain ⟨log, logs, order, hc⟩ := linearizable_with_controller hr
  exact ⟨x, log, logs, order, hr, hhist, hc⟩

end Stack

end RaftLabs.ShardKv
