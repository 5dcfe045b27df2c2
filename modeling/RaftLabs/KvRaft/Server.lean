import RaftLabs.Clerk

/-!
# The server of kvraft

`kvraft/server.go`: the map with the table of every client's last operation, the execution of a
committed command, the three RPC handlers cut at the points where they give up `kv.mu`, and the
snapshots.  `none` is a panic.  What Raft answers to the handlers (`Start`, `GetState`) is an
argument.
-/

namespace RaftLabs.KvRaft

/-- A command in the log. -/
structure Op where
  clientId : ℕ
  callId : ℕ
  getValid : Bool := false
  putValid : Bool := false
  appendValid : Bool := false
  key : GoString
  value : GoString := []
  deriving DecidableEq, Inhabited

structure LastOperation where
  callId : ℕ
  result : GoString
  deriving DecidableEq

structure KVServer where
  data : GoString → Option GoString
  lastOp : ℕ → Option LastOperation
  lastApplied : ℕ

inductive Err
  | ok | errNoKey | errWrongLeader
  deriving DecidableEq

/-- `GetReply` and `PutAppendReply`; the value of the latter is not looked at. -/
structure Reply where
  err : Err
  value : GoString := []
  deriving DecidableEq

/-- What a snapshot holds after its index. -/
structure Image where
  data : GoString → Option GoString
  lastOp : ℕ → Option LastOperation

namespace KVServer

/-- The server that `StartKVServer` sets up, before `restoreState`. -/
def init : KVServer := ⟨fun _ => none, fun _ => none, 0⟩

variable (kv : KVServer)

/-! ### Executing committed commands -/

/-- The command has been executed already, or a later one of the same client. -/
def Done (op : Op) : Prop := ∃ v, kv.lastOp op.clientId = some v ∧ op.callId ≤ v.callId

instance (op : Op) : Decidable (kv.Done op) :=
  match h : kv.lastOp op.clientId with
  | none => isFalse fun ⟨_, hv, _⟩ => nomatch h.symm.trans hv
  | some v =>
    if hle : op.callId ≤ v.callId then isTrue ⟨v, h, hle⟩
    else isFalse fun ⟨_, hv, h'⟩ => hle (Option.some.inj (h.symm.trans hv) ▸ h')

/-- The part of `execOp` that changes the map. -/
def perform (op : Op) : KVServer :=
  let result := if op.getValid then (kv.data op.key).getD [] else []
  let data :=
    if op.getValid then kv.data
    else if op.putValid then Function.update kv.data op.key (some op.value)
    else if op.appendValid then
      Function.update kv.data op.key (some ((kv.data op.key).getD [] ++ op.value))
    else kv.data
  { kv with
    data := data
    lastOp := Function.update kv.lastOp op.clientId (some ⟨op.callId, result⟩) }

/-- `execOp`, after the checks of the index. -/
def exec (op : Op) : KVServer :=
  let kv := { kv with lastApplied := kv.lastApplied + 1 }
  if kv.Done op then kv else kv.perform op

/-- `execOp`. -/
def execOp (op : Op) (index : ℕ) : Option KVServer :=
  -- the two panics about the index
  if index ≤ kv.lastApplied then none
  else if kv.lastApplied + 1 ≠ index then none
  else some (kv.exec op)

/-! ### The RPC handlers -/

/-- The command that the handler of a method hands to `Start`. -/
def op (r : Request) : Op :=
  match r.method with
  | .get key => { clientId := r.clientId, callId := r.callId, getValid := true, key := key }
  | .put key value =>
    { clientId := r.clientId, callId := r.callId, putValid := true, key := key, value := value }
  | .append key value =>
    { clientId := r.clientId, callId := r.callId, appendValid := true, key := key, value := value }

/-- The answer `OK`; only `Get` fills in a value. -/
def accept (r : Request) (v : LastOperation) : Reply :=
  match r.method with
  | .get _ => ⟨.ok, v.result⟩
  | _ => { err := .ok }

/-- `Get`, `Put` and `Append` up to `Start`: an old request is answered at once. -/
def fastPath (r : Request) : Option Reply :=
  match kv.lastOp r.clientId with
  | none => none
  | some v =>
    if r.callId ≤ v.callId then
      some (if r.callId = v.callId then accept r v else { err := .errWrongLeader })
    else none

/-- `Check`: whether the handler waits on. -/
def check (currentTerm : ℕ) (r : Request) (startTerm : ℕ) : Bool :=
  decide (currentTerm = startTerm) &&
    match kv.lastOp r.clientId with
    | none => true
    | some v => decide (v.callId < r.callId)

/-- The end of `Get`, `Put` and `Append`. -/
def finish (currentTerm : ℕ) (r : Request) (startTerm : ℕ) : Reply :=
  if currentTerm ≠ startTerm then { err := .errWrongLeader }
  else
    match kv.lastOp r.clientId with
    | none => { err := .errWrongLeader }
    | some v => if v.callId ≠ r.callId then { err := .errWrongLeader } else accept r v

/-! ### Snapshots -/

/-- What `makeSnapshot` captures under the lock: the index, and the rest. -/
def makeSnapshot : ℕ × Image := (kv.lastApplied, ⟨kv.data, kv.lastOp⟩)

/-- `applySnapshot`, for bytes that decode to `snapshot`. -/
def applySnapshot (snapshotIndex : ℕ) (snapshot : ℕ × Image) : Option KVServer :=
  if snapshot.1 ≠ snapshotIndex then none
  else if snapshotIndex < kv.lastApplied then some kv
  else some ⟨snapshot.2.data, snapshot.2.lastOp, snapshotIndex⟩

/-- `restoreState`. -/
def restoreState : Option (ℕ × Image) → KVServer
  | none => kv
  | some snapshot => ⟨snapshot.2.data, snapshot.2.lastOp, snapshot.1⟩

end KVServer

/-! ### What the functions compute -/

variable {kv kv' : KVServer}

namespace KVServer

lemma execOp_eq (kv : KVServer) (op : Op) :
    kv.execOp op (kv.lastApplied + 1) = some (kv.exec op) := by
  unfold execOp
  rw [if_neg (by omega), if_neg (by simp)]

@[simp] lemma exec_lastApplied (op : Op) : (kv.exec op).lastApplied = kv.lastApplied + 1 := by
  unfold exec
  dsimp only
  split_ifs <;> rfl

/-- `execOp` panics unless the command is the next one. -/
lemma execOp_isSome {op : Op} {index : ℕ} :
    (kv.execOp op index).isSome ↔ index = kv.lastApplied + 1 := by
  constructor
  · intro h
    unfold execOp at h
    split at h
    · cases h
    · split at h
      · cases h
      · rename_i hne
        exact (not_not.1 hne).symm
  · rintro rfl
    rw [execOp_eq]
    rfl

lemma execOp_lastApplied {op : Op} {index : ℕ} (h : kv.execOp op index = some kv') :
    kv'.lastApplied = index := by
  obtain rfl := execOp_isSome.1 (Option.isSome_of_eq_some h)
  rw [execOp_eq] at h
  cases h
  exact exec_lastApplied op

/-- `applySnapshot` panics unless the bytes start with the index. -/
lemma applySnapshot_isSome {index : ℕ} {snapshot : ℕ × Image} :
    (kv.applySnapshot index snapshot).isSome ↔ snapshot.1 = index := by
  unfold applySnapshot
  split_ifs with h₁ h₂
  · simpa using h₁
  · simpa using h₁
  · simpa using h₁

lemma applySnapshot_lastApplied {index : ℕ} {snapshot : ℕ × Image}
    (h : kv.applySnapshot index snapshot = some kv') :
    kv'.lastApplied = max kv.lastApplied index := by
  unfold applySnapshot at h
  split_ifs at h with h₁ h₂ <;> cases h
  · exact (max_eq_left h₂.le).symm
  · exact (max_eq_right (not_lt.1 h₂)).symm

/-- An answer `OK` on the fast path: the table has this very call. -/
lemma fastPath_ok {r : Request} {reply : Reply} (h : kv.fastPath r = some reply)
    (hok : reply.err = .ok) :
    ∃ v, kv.lastOp r.clientId = some v ∧ v.callId = r.callId ∧ reply = accept r v := by
  unfold fastPath at h
  split at h
  · cases h
  · rename_i v hv
    split_ifs at h with h₁ h₂
    · cases h
      exact ⟨v, hv, h₂.symm, rfl⟩
    · cases h
      cases hok

/-- The same at the end of the waiting. -/
lemma finish_ok {r : Request} {currentTerm startTerm : ℕ}
    (h : (kv.finish currentTerm r startTerm).err = .ok) :
    ∃ v, kv.lastOp r.clientId = some v ∧ v.callId = r.callId ∧
      kv.finish currentTerm r startTerm = accept r v := by
  unfold finish at h ⊢
  split_ifs at h ⊢ with h₁
  split at h
  · cases h
  · rename_i v hv
    split_ifs at h with h₂
    exact ⟨v, hv, not_not.1 h₂, by rw [if_neg h₂]⟩

end KVServer

end RaftLabs.KvRaft
