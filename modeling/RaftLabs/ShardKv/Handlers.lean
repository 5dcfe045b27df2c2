import RaftLabs.ShardKv.Ownership

/-!
# What a waiting handler answers

A handler of `Get`, `PutAppend` or `GC` waits on the channel of the index that `Start` gave it, and
compares the command that comes out with its own (`equalOp`).  After a change of leaders the index
may have been filled with any other command.  A `GC` handler is never deceived.  The comparison of
two operations leaves their `CallId` out, and what stops a handler of a client from taking another
call of the same client and kind for its own is then only `LastOp`, which is read after the handler
has woken up: if the request has meanwhile been executed at another index, the handler answers `OK`.
-/

namespace RaftLabs.ShardKv

open Lib Ctrler

variable {ι : Type} [DecidableEq ι] {H : History} {s s' : System ι} {h : Handler ι} {k index : ℕ}
  {currOp : Command} {kv : ShardKV} {r : Request} {c : Op}

namespace Task

/-- The command is the very request that the handler has started. -/
def Owns : Task ι → Command → Prop
  | .client r, .op c =>
    c.opType = (ShardKV.op r).opType ∧ c.clientId = r.clientId ∧ c.callId = r.callId
  | .gc cfgNum shard _ _, .gc cfgNum' shard' => cfgNum' = cfgNum ∧ shard' = shard
  | _, _ => False

/-- The command is another call of the same client and kind, and the request of the handler is the
last one of the client that the replica has executed. -/
def Confused (kv : ShardKV) : Task ι → Command → Prop
  | .client r, .op c =>
    (c.opType = (ShardKV.op r).opType ∧ c.clientId = r.clientId ∧ c.callId ≠ r.callId) ∧
      ∃ v, kv.lastOp r.clientId = some v ∧ v.callId = r.callId
  | _, _ => False

/-- In the step from `s` to `s'` the handler answers `OK`, or `ErrWrongLeader = false` to a `GC`. -/
def AnswersOk (s s' : System ι) : Task ι → Prop
  | .client r => ∃ reply, s'.answers = s.answers ++ [(r, reply)] ∧ reply.err = .ok
  | .gc cfgNum shard gid i => s'.packets = s.packets ++ [.gcReply gid i cfgNum shard]

end Task

/-! ### The comparison -/

lemma equalOp_op_iff {op : Op} :
    equalOp (.op op) currOp = true ↔
      ∃ c, currOp = .op c ∧ op.opType = c.opType ∧ op.clientId = c.clientId := by
  cases currOp with
  | op c => simp [equalOp]
  | config _ | migrate _ | gc _ _ => simp [equalOp]

lemma equalOp_gc_iff {cfgNum : ℕ} {shard : Shard} :
    equalOp currOp (.gc cfgNum shard) = true ↔ currOp = .gc cfgNum shard := by
  cases currOp with
  | gc cfgNum' shard' => simp [equalOp]
  | op _ | config _ | migrate _ => simp [equalOp]

namespace System

/-! ### The answers -/

lemma answersOk_client (htask : h.task = .client r) :
    h.task.AnswersOk s (s.notify k h index currOp) ↔
      ((s.replica h.gid h.server).kv.finish r currOp).err = .ok := by
  have hanswers : (s.notify k h index currOp).answers =
      s.answers ++ [(r, (s.replica h.gid h.server).kv.finish r currOp)] := by
    simp only [notify, htask]
    rfl
  simp [Task.AnswersOk, htask, hanswers]

lemma answersOk_gc {cfgNum : ℕ} {shard : Shard} {gid : Gid} {i : ι}
    (htask : h.task = .gc cfgNum shard gid i) :
    h.task.AnswersOk s (s.notify k h index currOp) ↔ currOp = .gc cfgNum shard := by
  have hpackets : (s.notify k h index currOp).packets =
      if equalOp currOp (.gc cfgNum shard) then s.packets ++ [.gcReply gid i cfgNum shard]
      else s.packets := by
    simp only [notify, htask]
    split <;> rfl
  rw [← equalOp_gc_iff]
  by_cases he : equalOp currOp (.gc cfgNum shard) = true
  · simp [Task.AnswersOk, htask, hpackets, he]
  · simp [Task.AnswersOk, htask, hpackets, he]

/-- **A handler answers `OK` only for its own entry, unless it is confused**: the index holds
another call of the same client and kind, and the request has been executed elsewhere. -/
theorem ok_only_for_own_entry_iff (hk : s.handlers[k]? = some h) (hindex : h.index = some index)
    (hchan : (s.replica h.gid h.server).notifyChan index = some currOp)
    (hs : step H s (.notify k) = some s') :
    (h.task.AnswersOk s s' → h.task.Owns currOp) ↔
      ¬ h.task.Confused (s.replica h.gid h.server).kv currOp := by
  obtain rfl : s.notify k h index currOp = s' := by
    simpa [step, hk, hindex, hchan] using hs
  cases htask : h.task with
  | gc cfgNum shard gid i =>
    rw [← htask, answersOk_gc htask, htask]
    refine iff_of_true ?_ (by simp [Task.Confused])
    rintro rfl
    exact ⟨rfl, rfl⟩
  | client r =>
    rw [← htask, answersOk_client htask, htask, ShardKV.finish_err_ok_iff, equalOp_op_iff]
    cases currOp with
    | op c =>
      simp only [Task.Owns, Task.Confused, Command.op.injEq, exists_eq_left', ShardKV.clientId_op]
      grind
    | config _ | migrate _ | gc _ _ => simp [Task.Confused]

/-- Server `0` of group `1` is the leader and executes the first `Put` of a client.  It hands the
second one to `Start`, which answers index `3`, and is cut off.  The next leader, server `1`, gets a
late copy of the first request, which goes to index `3`, and then the second request again, which
goes to index `4`. -/
def lateCopy : List (Event (Fin 3)) :=
  let first : Request := ⟨0, 0, .put [97] [120]⟩
  let second : Request := ⟨0, 1, .put [97] [121]⟩
  [.queryConfig 1 0 true, .commit 1 0 0,
    .call 0 first.method, .request first 1 0, .start 0 2 true, .commit 1 0 1, .notify 0, .answer 0,
    .call 0 second.method, .request second 1 0, .start 0 3 true,
    .apply 1 1, .apply 1 1,
    .request first 1 1, .start 1 3 true, .request second 1 1, .start 2 4 true,
    .commit 1 1 3, .commit 1 1 4,
    .apply 1 0, .apply 1 0]

/-- The first handler waits for `index` at server `0` of group `1` on behalf of `r`, its channel
holds `c`, and it is going to answer `reply`. -/
def waits (s : System (Fin 3)) (r : Request) (index : ℕ) (c : Op) (reply : Reply) : Bool :=
  (match (s.handlers[0]? : Option (Handler (Fin 3))) with
    | some ⟨gid, i, .client r', index'⟩ =>
      decide (gid = 1 ∧ i = 0 ∧ r' = r ∧ index' = some index)
    | _ => false) &&
  (match (s.replica 1 0).notifyChan index with
    | some (.op c') => decide (c' = c)
    | _ => false) &&
  ((step twoGroups s (.notify 0)).map fun s' =>
    decide (s'.answers = s.answers ++ [(r, reply)])) == some true

lemma waits_iff {s : System (Fin 3)} {reply : Reply} : waits s r index c reply = true ↔
    s.handlers[0]? = some ⟨1, 0, .client r, some index⟩ ∧
    (s.replica 1 0).notifyChan index = some (.op c) ∧
    ∃ s', step twoGroups s (.notify 0) = some s' ∧ s'.answers = s.answers ++ [(r, reply)] := by
  unfold waits
  rw [Bool.and_eq_true_iff, Bool.and_eq_true_iff, and_assoc]
  refine and_congr ?_ (and_congr ?_ ?_)
  · split
    · rename_i he
      simp [he]
    · rename_i he
      simp only [Bool.false_eq_true, false_iff]
      exact he _ _ _ _
  · split
    · rename_i he
      simp [he]
    · rename_i he
      simp only [Bool.false_eq_true, false_iff]
      exact he _
  · simp [Option.map_eq_some_iff]

/-- The handler of the second request at server `0` is given the first one, and answers `OK`. -/
theorem ok_for_another_entry : ∃ s s' : System (Fin 3),
    Reachable (step twoGroups) anyStep init s ∧ step twoGroups s (.notify 0) = some s' ∧
    s.handlers[0]? = some ⟨1, 0, .client ⟨0, 1, .put [97] [121]⟩, some 3⟩ ∧
    (s.replica 1 0).notifyChan 3 = some (.op (ShardKV.op ⟨0, 0, .put [97] [120]⟩)) ∧
    (Task.client ⟨0, 1, .put [97] [121]⟩).AnswersOk s s' := by
  have hrun : ((run (step twoGroups) init lateCopy).map fun s =>
      waits s ⟨0, 1, .put [97] [121]⟩ 3 (ShardKV.op ⟨0, 0, .put [97] [120]⟩) { err := .ok }) =
      some true := by
    decide +kernel
  obtain ⟨s, hs, hw⟩ := Option.map_eq_some_iff.1 hrun
  obtain ⟨hhandler, hchan, s', hstep, hanswers⟩ := waits_iff.1 hw
  exact ⟨s, s', Reachable.init.run hs, hstep, hhandler, hchan, _, hanswers, rfl⟩

/-- The handler of the first request is given its own entry. -/
theorem ok_only_for_own_entry_first : ∃ s s' : System (Fin 3),
    Reachable (step twoGroups) anyStep init s ∧ step twoGroups s (.notify 0) = some s' ∧
    (Task.client ⟨0, 0, .put [97] [120]⟩).AnswersOk s s' ∧
    (Task.client (ι := Fin 3) ⟨0, 0, .put [97] [120]⟩).Owns
      (.op (ShardKV.op ⟨0, 0, .put [97] [120]⟩)) := by
  have hrun : ((run (step twoGroups) init (lateCopy.take 6)).map fun s =>
      waits s ⟨0, 0, .put [97] [120]⟩ 2 (ShardKV.op ⟨0, 0, .put [97] [120]⟩) { err := .ok }) =
      some true := by
    decide +kernel
  obtain ⟨s, hs, hw⟩ := Option.map_eq_some_iff.1 hrun
  obtain ⟨hhandler, hchan, s', hstep, hanswers⟩ := waits_iff.1 hw
  have hok : (Task.client ⟨0, 0, .put [97] [120]⟩).AnswersOk s s' := ⟨_, hanswers, rfl⟩
  refine ⟨s, s', Reachable.init.run hs, hstep, hok, ?_⟩
  refine (ok_only_for_own_entry_iff hhandler rfl hchan hstep).2 ?_ hok
  rintro ⟨⟨-, -, hcall⟩, -⟩
  exact hcall rfl

end System

end RaftLabs.ShardKv
