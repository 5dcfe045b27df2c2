import RaftLabs.Backing
import RaftLabs.Lib.Session
import RaftLabs.ShardCtrler.History

/-!
# The shard controller as a service of Raft

A server of `shardctrler/server.go` on top of its Raft server.  Its `applier` raises `lastApplied` in
one critical section and executes the command after it, so that handlers may see the index of a command
that has not taken effect yet (`Server.executing`).  Commands are those in range: another one stops
the controller for good.

The purpose of the service is one list of configurations (`controller`), and what a server has made of
a log is a session with it (`session_replay`).
-/

namespace RaftLabs.Ctrler

open Lib

instance instDecidableEqGroups : DecidableEq Groups :=
  fun groups groups' => decidable_of_iff (groups.entries = groups'.entries) AList.ext_iff.symm

deriving instance DecidableEq for Args
deriving instance DecidableEq for Op

/-- A command in range. -/
abbrev Command := { op : Op // op.InRange }

instance : Inhabited Command := ⟨⟨⟨0, 0, .leave []⟩, trivial⟩⟩

/-! ### A server -/

structure Server where
  ctrler : ShardCtrler
  lastApplied : ℕ
  /-- The command that `applier` is about to execute. -/
  executing : Option Command

namespace Server

/-- The server that `StartServer` sets up. -/
def init : Server := ⟨ShardCtrler.init, 0, none⟩

variable (k : Server)

/-- The state once `applier` is through with its command. -/
def settled : Option ShardCtrler :=
  match k.executing with
  | none => some k.ctrler
  | some c => k.ctrler.execOp c.1

/-- `applier` takes a message: it is through with the last one, and raises `lastApplied`. -/
def take (c : Command) (index : ℕ) : Option Server :=
  if k.lastApplied + 1 ≠ index then none else k.settled.map fun sc => ⟨sc, index, some c⟩

/-- `applier` executes its command. -/
def finishExec : Server :=
  match k.settled with
  | none => k
  | some sc => ⟨sc, k.lastApplied, none⟩

variable {k} {k' : Server} {c : Command} {index : ℕ}

lemma exists_settled (k : Server) : ∃ sc, k.settled = some sc := by
  unfold settled
  cases k.executing with
  | none => exact ⟨_, rfl⟩
  | some c => exact k.ctrler.execOp_isSome c.2

lemma take_isSome : (k.take c index).isSome ↔ index = k.lastApplied + 1 := by
  obtain ⟨sc, hsc⟩ := k.exists_settled
  unfold take
  rw [hsc]
  split_ifs with h
  · simpa using Ne.symm h
  · simpa using (not_not.1 h).symm

lemma take_eq (h : k.take c index = some k') : index = k.lastApplied + 1 ∧
    ∃ sc, k.settled = some sc ∧ k' = ⟨sc, index, some c⟩ := by
  unfold take at h
  split_ifs at h with hi
  obtain ⟨sc, hsc, rfl⟩ := Option.map_eq_some_iff.1 h
  exact ⟨(not_not.1 hi).symm, sc, hsc, rfl⟩

@[simp] lemma finishExec_lastApplied : k.finishExec.lastApplied = k.lastApplied := by
  unfold finishExec
  cases k.settled <;> rfl

@[simp] lemma finishExec_settled : k.finishExec.settled = k.settled := by
  obtain ⟨sc, hsc⟩ := k.exists_settled
  unfold finishExec
  rw [hsc]
  rfl

end Server

/-- The controller.  It takes no snapshots, and a deployment does not ask it to; that part of the service
is the plain one. -/
def shardctrler : Service Command ShardCtrler where
  State := Server
  start := Server.init
  lastApplied := Server.lastApplied
  exec := Server.take
  makeSnapshot k := (k.lastApplied, k.settled.getD k.ctrler)
  applySnapshot k index d :=
    if d.1 ≠ index then none
    else if index < k.lastApplied then some k else some ⟨d.2, index, none⟩
  restoreState k d := d.elim k fun d => ⟨d.2, d.1, none⟩
  Background := Unit
  background k _ := k.finishExec
  lastApplied_start := rfl
  exec_isSome := Server.take_isSome
  lastApplied_exec := by
    intro k c index k' h
    obtain ⟨-, sc, -, rfl⟩ := Server.take_eq h
    rfl
  makeSnapshot_index _ := rfl
  applySnapshot_isSome := by
    intro k index d
    split_ifs with h₁ h₂ <;> simpa using h₁
  lastApplied_applySnapshot := by
    intro k index d k' h
    split_ifs at h with h₁ h₂ <;> cases h
    · exact (max_eq_left h₂.le).symm
    · exact (max_eq_right (not_lt.1 h₂)).symm
  lastApplied_restoreState _ d := by cases d <;> rfl
  lastApplied_background _ _ := Server.finishExec_lastApplied

/-- Two servers that differ in how far `applier` is with its command. -/
def Server.Like (k₀ k : Server) : Prop := k.lastApplied = k₀.lastApplied ∧ k.settled = k₀.settled

lemma Server.like_of_snapshot {k₀ k : Server} (h : Like k₀ k) :
    Like k₀ ⟨k.settled.getD k.ctrler, k.lastApplied, none⟩ := by
  obtain ⟨sc, hsc⟩ := k.exists_settled
  refine ⟨h.1, ?_⟩
  rw [← h.2, hsc]
  rfl

lemma faithful_shardctrler : Faithful shardctrler Server.Like where
  start := ⟨rfl, rfl⟩
  position h := h.1
  exec := by
    rintro k₀ k k₀' k' c index ⟨-, hsettled⟩ h₀ h
    obtain ⟨-, sc₀, hsc₀, rfl⟩ := Server.take_eq h₀
    obtain ⟨-, sc, hsc, rfl⟩ := Server.take_eq h
    obtain rfl : sc = sc₀ := Option.some.inj (hsc.symm.trans (hsettled.trans hsc₀))
    exact ⟨rfl, rfl⟩
  background _ h := ⟨Server.finishExec_lastApplied.trans h.1, Server.finishExec_settled.trans h.2⟩
  restore h := Server.like_of_snapshot h
  install := by
    intro k₀ k k₁ k' k'' h h₁ hle hs
    dsimp only [shardctrler] at hle hs
    rw [if_neg (not_not.2 rfl), if_neg (not_lt.2 hle)] at hs
    cases hs
    exact Server.like_of_snapshot h
  stale := by
    intro k k' index d hs hlt
    dsimp only [shardctrler] at hlt hs
    rw [if_pos hlt] at hs
    split_ifs at hs
    exact (Option.some.inj hs).symm
  fresh := rfl

/-! ### The purpose of the service -/

/-- **One list of configurations.**  A query does not change it and is answered from it, and every other
command adds a configuration. -/
def controller : Object (List Config) Command (Option Config) where
  init := [Config.zero]
  step configs c :=
    let sc : ShardCtrler := ⟨configs, fun _ => none⟩
    match c.1.args with
    | .query num => (configs, sc.queried num)
    | args => (configs ++ (sc.newConfig args).toList, none)

def numbering : Numbering Command := ⟨fun c => c.1.clientId, fun c => c.1.callId⟩

/-- The configurations with the table of last operations. -/
def ShardCtrler.session (sc : ShardCtrler) : Session (List Config) (Option Config) :=
  ⟨sc.configs, fun c => (sc.lastOp c).map fun v => (v.callId, v.config)⟩

section Session

variable {sc sc' : ShardCtrler} {c : Command} {log : List Command}

lemma done_session : sc.session.done numbering c = sc.done c.1 := by
  unfold Session.done ShardCtrler.done ShardCtrler.session numbering
  dsimp only
  cases sc.lastOp c.1.clientId <;> rfl

/-- A new configuration depends on those there are. -/
lemma newConfig_configs (sc : ShardCtrler) (args : Args) :
    ShardCtrler.newConfig ⟨sc.configs, fun _ => none⟩ args = sc.newConfig args := by
  cases args <;> rfl

lemma queried_configs (sc : ShardCtrler) (num : ℤ) :
    ShardCtrler.queried ⟨sc.configs, fun _ => none⟩ num = sc.queried num := rfl

/-- The table after a command. -/
lemma update_last {v : LastOperation} {client : ℕ} :
    (fun c => (Function.update sc.lastOp client (some v) c).map fun v => (v.callId, v.config)) =
      Function.update sc.session.last client (some (v.callId, v.config)) := by
  funext c
  by_cases hc : c = client
  · subst hc
    simp
  · simp [hc, ShardCtrler.session]

/-- **A command does to the list of configurations what it is for**, once. -/
lemma session_execOp (h : sc.execOp c.1 = some sc') :
    sc'.session = sc.session.exec controller numbering c := by
  unfold Session.exec
  rw [done_session]
  rcases ShardCtrler.execOp_cases h with ⟨hd, rfl⟩ | ⟨hd, hq, config, hc, rfl⟩ |
    ⟨hd, num, config, ha, hq, rfl⟩
  · rw [if_pos hd]
  · have hstep : controller.step sc.configs c = (sc.configs ++ [config], none) := by
      unfold controller
      dsimp only
      split
      · rename_i num ha
        rw [ha] at hq
        cases hq
      · rw [newConfig_configs, hc]
        rfl
    rw [if_neg (by simp [hd])]
    unfold Session.perform
    rw [show sc.session.state = sc.configs from rfl, hstep]
    exact Session.ext rfl update_last
  · have hstep : controller.step sc.configs c = (sc.configs, some config) := by
      unfold controller
      dsimp only
      rw [ha]
      dsimp only
      rw [queried_configs, hq]
    rw [if_neg (by simp [hd])]
    unfold Session.perform
    rw [show sc.session.state = sc.configs from rfl, hstep]
    exact Session.ext rfl update_last

/-- The server after a whole log. -/
lemma session_replay (h : ShardCtrler.replay (log.map Subtype.val) = some sc) :
    sc.session = Session.replay controller numbering log := by
  induction log using List.reverseRecOn generalizing sc with
  | nil =>
    cases h
    rfl
  | append_singleton log c ih =>
    rw [List.map_append, List.map_singleton, ShardCtrler.replay_concat] at h
    obtain ⟨sc₀, h₀, hc⟩ := Option.bind_eq_some_iff.1 h
    rw [session_execOp hc, ih h₀, Session.replay_concat]

end Session

end RaftLabs.Ctrler
