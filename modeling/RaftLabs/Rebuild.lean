import RaftLabs.Host
import RaftLabs.ShardKv.Sound

/-!
# Replicas that are rebuilt from snapshots

A replica of kvraft or shardkv may, at any point of the log, be replaced by what `restoreState` or
`applySnapshot` makes of the bytes that `makeSnapshot` writes there.  The bytes are a labgob stream,
read back value by value in the order the three functions list the fields; that labgob reads the
values it has written is built into the type of the stream.

`Rebuilt` collects every way to get to a point of the log with such replacements.  Whichever way it
was, the state is that of a replica that has executed the whole log (`snapshot_suffix_replay`), up to
`GCList`, which `tryGC` shortens beside the log.
-/

namespace RaftLabs

/-! ### The bytes of kvraft -/

namespace KvRaft

/-- A value in the stream, with its Go type. -/
inductive Gob
  | int (n : ℕ)
  | mapStringString (m : GoString → Option GoString)
  | mapLastOperation (m : ℕ → Option LastOperation)

namespace Gob

def toInt? : Gob → Option ℕ
  | int n => some n
  | _ => none

def toData? : Gob → Option (GoString → Option GoString)
  | mapStringString m => some m
  | _ => none

def toLastOp? : Gob → Option (ℕ → Option LastOperation)
  | mapLastOperation m => some m
  | _ => none

end Gob

namespace KVServer

/-- The stream that `makeSnapshot` encodes. -/
def encodeSnapshot (kv : KVServer) : List Gob :=
  [.int kv.lastApplied, .mapStringString kv.data, .mapLastOperation kv.lastOp]

/-- `applySnapshot` from the bytes.  A value that cannot be decoded is logged, and the variable keeps
what it was made with. -/
def applySnapshotBytes (kv : KVServer) (snapshotIndex : ℕ) (snapshot : List Gob) :
    Option KVServer :=
  let index := (snapshot[0]?.bind Gob.toInt?).getD 0
  let data := (snapshot[1]?.bind Gob.toData?).getD fun _ => none
  let lastOp := (snapshot[2]?.bind Gob.toLastOp?).getD fun _ => none
  kv.applySnapshot snapshotIndex (index, ⟨data, lastOp⟩)

/-- `restoreState` from the bytes: nothing changes unless every value can be decoded. -/
def restoreStateBytes (kv : KVServer) (snapshot : List Gob) : KVServer :=
  kv.restoreState <|
    (snapshot[0]?.bind Gob.toInt?).bind fun lastApplied =>
    (snapshot[1]?.bind Gob.toData?).bind fun data =>
    (snapshot[2]?.bind Gob.toLastOp?).map fun lastOp => (lastApplied, ⟨data, lastOp⟩)

end KVServer

end KvRaft

/-! ### The bytes of shardkv -/

namespace ShardKv

/-- A value in the stream, with its Go type. -/
inductive Gob
  | int (n : ℕ)
  | mapStringString (m : Data)
  | mapLastOperation (m : ℕ → Option LastOperation)
  | config (c : Ctrler.Config)
  | mapIntStruct (m : Finset Shard)
  | mapIntIntData (m : ℕ → Shard → Option Data)
  | mapIntInt (m : Shard → Option ℕ)
  | mapIntIntStruct (m : Finset (ℕ × Shard))

/-- The eight calls of `Decode`, in order. -/
def decodeSnapshot : List Gob → Option (ℕ × Image)
  | .int index :: .mapStringString data :: .mapLastOperation lastOp :: .config config ::
      .mapIntStruct myShards :: .mapIntIntData dataForMigration :: .mapIntInt shardDataReqs ::
      .mapIntIntStruct gcList :: _ =>
    some (index, ⟨data, lastOp, config, myShards, dataForMigration, shardDataReqs, gcList⟩)
  | _ => none

namespace ShardKV

/-- The stream that `makeSnapshot` encodes. -/
def encodeSnapshot (kv : ShardKV) : List Gob :=
  [.int kv.lastApplied, .mapStringString kv.data, .mapLastOperation kv.lastOp, .config kv.config,
    .mapIntStruct kv.myShards, .mapIntIntData kv.dataForMigration, .mapIntInt kv.shardDataReqs,
    .mapIntIntStruct kv.gcList]

/-- `applySnapshot` from the bytes; it stops the process when they cannot be decoded. -/
def applySnapshotBytes (kv : ShardKV) (snapshotIndex : ℕ) (snapshot : List Gob) : Option ShardKV :=
  (decodeSnapshot snapshot).bind fun d => kv.applySnapshot snapshotIndex d

/-- `restoreState` from the bytes: nothing changes unless they can be decoded. -/
def restoreStateBytes (kv : ShardKV) (snapshot : List Gob) : ShardKV :=
  kv.restoreState (decodeSnapshot snapshot)

end ShardKV

end ShardKv

/-! ### Services and their bytes -/

/-- The snapshots of a service as bytes.  The laws say that what is written is what is read. -/
structure Wire {C σ : Type} (svc : Service C σ) where
  Bytes : Type
  makeSnapshot : svc.State → Bytes
  applySnapshot : svc.State → ℕ → Bytes → Option svc.State
  restoreState : svc.State → Bytes → svc.State
  applySnapshot_eq k' index k :
    applySnapshot k' index (makeSnapshot k) = svc.applySnapshot k' index (svc.makeSnapshot k)
  restoreState_eq k' k :
    restoreState k' (makeSnapshot k) = svc.restoreState k' (some (svc.makeSnapshot k))

def kvraftWire : Wire kvraft where
  Bytes := List KvRaft.Gob
  makeSnapshot := KvRaft.KVServer.encodeSnapshot
  applySnapshot := KvRaft.KVServer.applySnapshotBytes
  restoreState := KvRaft.KVServer.restoreStateBytes
  applySnapshot_eq _ _ _ := rfl
  restoreState_eq _ _ := rfl

def shardkvWire (gid : Ctrler.Gid) : Wire (shardkv gid) where
  Bytes := List ShardKv.Gob
  makeSnapshot := ShardKv.ShardKV.encodeSnapshot
  applySnapshot := ShardKv.ShardKV.applySnapshotBytes
  restoreState := ShardKv.ShardKV.restoreStateBytes
  applySnapshot_eq _ _ _ := rfl
  restoreState_eq _ _ := rfl

section Rebuilt

variable {C σ : Type} {svc : Service C σ} {w : Wire svc}

namespace Service

/-- A replica that executes a whole log, without any snapshot. -/
def applyAll (svc : Service C σ) (log : List C) : Option svc.State :=
  (log.zipIdx 1).foldlM (fun k c => svc.exec k c.1 c.2) svc.start

lemma applyAll_concat (log : List C) (c : C) :
    svc.applyAll (log ++ [c]) = (svc.applyAll log).bind fun k => svc.exec k c (log.length + 1) := by
  rw [applyAll, List.zipIdx_append, List.foldlM_append, Nat.add_comm log.length]
  simp [applyAll]

/-- It never panics. -/
lemma exists_applyAll (log : List C) :
    ∃ k, svc.applyAll log = some k ∧ svc.lastApplied k = log.length := by
  induction log using List.reverseRecOn with
  | nil => exact ⟨svc.start, rfl, svc.lastApplied_start⟩
  | append_singleton log c ih =>
    obtain ⟨k, hk, hlen⟩ := ih
    obtain ⟨k', hk'⟩ := Option.isSome_iff_exists.1
      (svc.exec_isSome (c := c).2 (congrArg (· + 1) hlen.symm))
    refine ⟨k', ?_, ?_⟩
    · rw [applyAll_concat, hk]
      exact hk'
    · rw [svc.lastApplied_exec hk', List.length_append, List.length_singleton]

end Service

/-- **The states a replica may be in after a log**, when it or another replica has been rebuilt from
snapshots any number of times on the way. -/
inductive Rebuilt (w : Wire svc) : List C → svc.State → Prop
  | start : Rebuilt w [] svc.start
  | exec {log : List C} {k k' : svc.State} (c : C) : Rebuilt w log k →
      svc.exec k c (log.length + 1) = some k' → Rebuilt w (log ++ [c]) k'
  | background {log : List C} {k : svc.State} (b : svc.Background) : Rebuilt w log k →
      Rebuilt w log (svc.background k b)
  /-- After a crash, from the snapshot of this very point. -/
  | restore {log : List C} {k : svc.State} : Rebuilt w log k →
      Rebuilt w log (w.restoreState svc.start (w.makeSnapshot k))
  /-- Another replica, at or behind this point, is handed the snapshot. -/
  | install {log log' : List C} {k k' k'' : svc.State} : Rebuilt w log k → Rebuilt w log' k' →
      log' <+: log → w.applySnapshot k' log.length (w.makeSnapshot k) = some k'' →
      Rebuilt w log k''

/-- A state that differs from another only in what the commands do not look at. -/
structure Variant (svc : Service C σ) (Like : svc.State → svc.State → Prop) : Prop where
  start : Like svc.start svc.start
  position {k₀ k : svc.State} : Like k₀ k → svc.lastApplied k = svc.lastApplied k₀
  exec {k₀ k k₀' k' : svc.State} {c : C} {index : ℕ} : Like k₀ k →
    svc.exec k₀ c index = some k₀' → svc.exec k c index = some k' → Like k₀' k'
  background {k₀ k : svc.State} (b : svc.Background) : Like k₀ k → Like k₀ (svc.background k b)
  restore {k₀ k : svc.State} : Like k₀ k →
    Like k₀ (svc.restoreState svc.start (some (svc.makeSnapshot k)))
  install {k₀ k k₁ k' k'' : svc.State} : Like k₀ k → Like k₁ k' → svc.lastApplied k' ≤ svc.lastApplied k →
    svc.applySnapshot k' (svc.lastApplied k) (svc.makeSnapshot k) = some k'' → Like k₀ k''

lemma Variant.lastApplied {Like : svc.State → svc.State → Prop} (hv : Variant svc Like)
    {log : List C} {k₀ k : svc.State} (hk₀ : svc.applyAll log = some k₀) (hl : Like k₀ k) :
    svc.lastApplied k = log.length := by
  obtain ⟨k₁, hk₁, hlen⟩ := svc.exists_applyAll log
  obtain rfl : k₁ = k₀ := Option.some.inj (hk₁.symm.trans hk₀)
  exact (hv.position hl).trans hlen

/-- **A rebuilt replica is a variant of one that has executed the whole log.** -/
theorem Rebuilt.like {Like : svc.State → svc.State → Prop} (hv : Variant svc Like)
    {log : List C} {k : svc.State} (h : Rebuilt w log k) :
    ∃ k₀, svc.applyAll log = some k₀ ∧ Like k₀ k := by
  induction h with
  | start => exact ⟨svc.start, rfl, hv.start⟩
  | @exec log k k' c _ hs ih =>
    obtain ⟨k₀, hk₀, hl⟩ := ih
    obtain ⟨k₀', hk₀', -⟩ := svc.exists_applyAll (log ++ [c])
    have hexec : svc.exec k₀ c (log.length + 1) = some k₀' := by
      rw [Service.applyAll_concat, hk₀] at hk₀'
      exact hk₀'
    exact ⟨k₀', hk₀', hv.exec hl hexec hs⟩
  | background b _ ih =>
    obtain ⟨k₀, hk₀, hl⟩ := ih
    exact ⟨k₀, hk₀, hv.background b hl⟩
  | restore _ ih =>
    obtain ⟨k₀, hk₀, hl⟩ := ih
    rw [w.restoreState_eq]
    exact ⟨k₀, hk₀, hv.restore hl⟩
  | @install log log' k k' k'' _ _ hp hs ih ih' =>
    obtain ⟨k₀, hk₀, hl⟩ := ih
    obtain ⟨k₁, hk₁, hl'⟩ := ih'
    have hlen := hv.lastApplied hk₀ hl
    have hle : svc.lastApplied k' ≤ svc.lastApplied k := by
      rw [hlen, hv.lastApplied hk₁ hl']
      exact hp.length_le
    rw [w.applySnapshot_eq, ← hlen] at hs
    exact ⟨k₀, hk₀, hv.install hl hl' hle hs⟩

end Rebuilt

/-! ### The two services -/

/-- A replica of kvraft takes over the state that a snapshot of its future holds. -/
lemma KvRaft.KVServer.applySnapshot_makeSnapshot {kv kv' kv'' : KVServer}
    (hle : kv'.lastApplied ≤ kv.lastApplied)
    (hs : kv'.applySnapshot kv.lastApplied kv.makeSnapshot = some kv'') : kv'' = kv := by
  unfold applySnapshot at hs
  rw [if_neg (show ¬ kv.makeSnapshot.1 ≠ kv.lastApplied from not_not.2 rfl),
    if_neg (not_lt.2 hle)] at hs
  exact (Option.some.inj hs).symm

lemma ShardKv.ShardKV.ofImage_eq {kv : ShardKV} {gid : Ctrler.Gid} (hg : kv.gid = gid) :
    (⟨kv.toImage, gid, kv.lastApplied⟩ : ShardKV) = kv := by
  subst hg
  rfl

/-- The same for shardkv, inside one group. -/
lemma ShardKv.ShardKV.applySnapshot_makeSnapshot {kv kv' kv'' : ShardKV} (hg : kv'.gid = kv.gid)
    (hle : kv'.lastApplied ≤ kv.lastApplied)
    (hs : kv'.applySnapshot kv.lastApplied kv.makeSnapshot = some kv'') : kv'' = kv := by
  unfold applySnapshot at hs
  rw [if_neg (show ¬ kv.makeSnapshot.1 ≠ kv.lastApplied from not_not.2 rfl),
    if_neg (not_lt.2 hle)] at hs
  exact (Option.some.inj hs).symm.trans (ofImage_eq hg.symm)

/-- kvraft: nothing is left out of a snapshot. -/
lemma variant_kvraft : Variant kvraft fun kv₀ kv => kv = kv₀ where
  start := rfl
  position := by
    rintro kv₀ kv rfl
    rfl
  exec := by
    rintro kv₀ kv kv₀' kv' op index rfl h₀ h
    exact Option.some.inj (h.symm.trans h₀)
  background _ h := h
  restore := by
    rintro kv₀ kv rfl
    rfl
  install := by
    rintro kv₀ kv kv₁ kv' kv'' rfl - hle hs
    exact KvRaft.KVServer.applySnapshot_makeSnapshot hle hs

/-- shardkv: `GCList` may have been shortened. -/
lemma variant_shardkv (gid : Ctrler.Gid) : Variant (shardkv gid) fun kv₀ kv =>
    kv.gid = gid ∧ ∃ l ⊆ kv₀.gcList, kv = kv₀.withGC l where
  start := ⟨rfl, _, Finset.Subset.refl _, rfl⟩
  position := by
    rintro kv₀ kv ⟨-, l, -, rfl⟩
    rfl
  exec := by
    rintro kv₀ kv kv₀' kv' command index ⟨hg, l, hl, rfl⟩ h₀ h
    obtain ⟨r₀, hr₀, rfl⟩ := Option.map_eq_some_iff.1 h₀
    obtain ⟨r, hr, rfl⟩ := Option.map_eq_some_iff.1 h
    obtain ⟨rfl, -⟩ := ShardKv.ShardKV.execCommand_eq hr₀
    obtain ⟨rfl, -⟩ := ShardKv.ShardKV.execCommand_eq hr
    obtain ⟨l', hl', he⟩ := ShardKv.ShardKV.withGC_exec hl command
    exact ⟨(ShardKv.ShardKV.exec_gid command).trans hg, l', hl', congrArg Prod.fst he⟩
  background := by
    rintro kv₀ kv b ⟨hg, l, hl, rfl⟩
    exact ⟨hg, l.erase b, (Finset.erase_subset _ _).trans hl, rfl⟩
  restore := by
    rintro kv₀ kv ⟨hg, l, hl, rfl⟩
    exact ⟨rfl, l, hl, ShardKv.ShardKV.ofImage_eq hg⟩
  install := by
    rintro kv₀ kv kv₁ kv' kv'' ⟨hg, l, hl, rfl⟩ ⟨hg', -⟩ hle hs
    have he := ShardKv.ShardKV.applySnapshot_makeSnapshot (hg'.trans hg.symm) hle hs
    exact ⟨he ▸ hg, l, hl, he⟩

/-- **Snapshot plus suffix equals full replay.**  However a replica of shardkv, or of kvraft, has got
to the end of a log, it is in the state of one that has executed the whole log, and can go on. -/
theorem snapshot_suffix_replay :
    (∀ (gid : Ctrler.Gid) (log : List ShardKv.Command) (kv : ShardKv.ShardKV),
      Rebuilt (shardkvWire gid) log kv → ∃ kv₀ : ShardKv.ShardKV,
        (shardkv gid).applyAll log = some kv₀ ∧
        kv.data = kv₀.data ∧ kv.lastOp = kv₀.lastOp ∧ kv.config = kv₀.config ∧
        kv.myShards = kv₀.myShards ∧ kv.dataForMigration = kv₀.dataForMigration ∧
        kv.shardDataReqs = kv₀.shardDataReqs ∧ kv.lastApplied = kv₀.lastApplied ∧
        ∀ command, (kv.execCommand command (log.length + 1)).isSome) ∧
    ∀ (log : List KvRaft.Op) (kv : KvRaft.KVServer), Rebuilt kvraftWire log kv →
      ∃ kv₀ : KvRaft.KVServer, kvraft.applyAll log = some kv₀ ∧ kv.data = kv₀.data ∧
        kv.lastOp = kv₀.lastOp ∧ kv.lastApplied = kv₀.lastApplied ∧
        ∀ op, (kv.execOp op (log.length + 1)).isSome := by
  constructor
  · intro gid log kv h
    obtain ⟨kv₀, hkv₀, hl⟩ := h.like (variant_shardkv gid)
    have hlen := (variant_shardkv gid).lastApplied hkv₀ hl
    obtain ⟨-, l, -, rfl⟩ := hl
    refine ⟨kv₀, hkv₀, rfl, rfl, rfl, rfl, rfl, rfl, rfl, fun command => ?_⟩
    exact ShardKv.ShardKV.execCommand_isSome.2 (congrArg (· + 1) hlen.symm)
  · intro log kv h
    obtain ⟨kv₀, hkv₀, hl⟩ := h.like variant_kvraft
    have hlen := variant_kvraft.lastApplied hkv₀ hl
    obtain rfl := hl
    refine ⟨kv, hkv₀, rfl, rfl, rfl, fun op => ?_⟩
    exact KvRaft.KVServer.execOp_isSome.2 (congrArg (· + 1) hlen.symm)

/-- All shards belong to group 1. -/
def oneGroup : Ctrler.Config := ⟨1, fun _ => 1, ∅⟩

/-- A `Put` of one client. -/
def firstPut : ShardKv.Op := ⟨.put, 0, 1, [97], [120]⟩

/-- A replica crashes after the first command, and hands its state to a new one after the second. -/
theorem snapshot_suffix_replay_two_cuts : ∃ kv kv₀ : ShardKv.ShardKV,
    Rebuilt (shardkvWire 1) [.config oneGroup, .op firstPut] kv ∧
    (shardkv 1).applyAll [.config oneGroup, .op firstPut] = some kv₀ ∧
    kv.data [97] = some [120] ∧ kv₀.data [97] = some [120] := by
  have h₁ : Rebuilt (shardkvWire 1) [.config oneGroup] _ := .exec _ .start rfl
  have h₂ : Rebuilt (shardkvWire 1) [.config oneGroup, .op firstPut] _ := h₁.restore.exec _ rfl
  have h₃ := h₂.install .start List.nil_prefix rfl
  obtain ⟨kv₀, hkv₀, hdata, -⟩ := snapshot_suffix_replay.1 1 _ _ h₃
  refine ⟨_, kv₀, h₃, hkv₀, ?_, ?_⟩
  · decide +kernel
  · rw [← hdata]
    decide +kernel

end RaftLabs
