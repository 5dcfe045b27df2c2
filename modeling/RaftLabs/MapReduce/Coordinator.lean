import RaftLabs.Lib.GoString
import RaftLabs.Lib.Pool
import RaftLabs.Lib.Trace

/-!
# The coordinator of MapReduce

`mr/coordinator.go`.  The map tasks and the reduce tasks are kept the same way: a status for each
task, the transactions of the tasks that are being processed, a queue of idle tasks, and a count of
the completed ones, which together are a `Pool`.  The reduce tasks are created while the map tasks
are being completed, from the file names that the workers report.

`none` is a panic, or a handler that waits.  Times are in nanoseconds; the order in which Go ranges
over a map, and the clock, are arguments.
-/

namespace RaftLabs.MapReduce

open Lib

/-- `TIMEOUTLIMIT * time.Second`. -/
def timeoutLimit : ℕ := 10 * 10 ^ 9

abbrev TransactionID := ℤ

structure Transaction where
  txnID : TransactionID
  beginTime : ℕ
  deriving DecidableEq

structure Task where
  isMapTask : Bool
  filenames : List GoString
  index : ℤ
  nReduce : ℤ := 0
  txnID : TransactionID := 0
  deriving DecidableEq

/-- What a worker reports. -/
structure Reply where
  index : ℤ
  txnID : TransactionID
  filenames : List GoString := []

inductive Err
  /-- "unexpected txnID %d to completed the map task %d" -/
  | unexpectedMapTxn (txnID : TransactionID) (index : ℤ)
  /-- "unexpected txnID %d to completed the reduce task %d" -/
  | unexpectedReduceTxn (txnID : TransactionID) (index : ℤ)
  /-- The error of `strconv.Atoi`. -/
  | atoi (num : GoString)
  deriving DecidableEq

/-- `maps` is `MapTaskStatus`, `MTaskProcessingTxn`, `IdleMapTask` and `MapTasksCompletedCnt`;
`reduces` is the same for the reduce tasks. -/
structure Coordinator where
  nReduce : ℤ
  nextTxnID : TransactionID
  mapTasks : List Task
  reduceTasks : AList fun _ : ℤ => Task
  maps : Pool ℤ Transaction
  reduces : Pool ℤ Transaction

namespace Coordinator

/-- `MakeCoordinator`. -/
def make (files : List GoString) (nReduce : ℤ) : Coordinator where
  nReduce := nReduce
  nextTxnID := 0
  mapTasks := files.mapIdx fun i file =>
    { isMapTask := true, filenames := [file], index := i, nReduce := nReduce }
  reduceTasks := ∅
  maps := (List.range files.length).foldl (fun p (i : ℕ) => p.add (i : ℤ)) Pool.empty
  reduces := Pool.empty

variable (c : Coordinator)

/-! ### Handing out tasks -/

/-- `c.MapTasks[i]`. -/
def mapTask (i : ℤ) : Option Task := if 0 ≤ i then c.mapTasks[i.toNat]? else none

/-- `CloneTask`, with the transaction of the task that is handed out. -/
def cloneTask (src : Task) (txnID : TransactionID) : Task := { src with txnID := txnID }

/-- `GetMapTask`: the task, or nothing when all map tasks are completed. -/
def getMapTask (now : ℕ) : Option (Coordinator × Option Task) :=
  if c.maps.queue = [] ∧ c.maps.completedCnt < c.mapTasks.length then none
  else if c.mapTasks.length ≤ c.maps.completedCnt then some (c, none)
  else
    (c.maps.take ⟨c.nextTxnID, now⟩).bind fun v =>
      (c.mapTask v.1).map fun task =>
        ({ c with maps := v.2, nextTxnID := c.nextTxnID + 1 }, some (cloneTask task c.nextTxnID))

/-- `GetReduceTask`, which waits for the map tasks first. -/
def getReduceTask (now : ℕ) : Option (Coordinator × Option Task) :=
  if c.maps.completedCnt < c.mapTasks.length then none
  else if c.reduces.queue = [] ∧ c.reduces.completedCnt < c.reduceTasks.keys.length then none
  else if c.reduceTasks.keys.length ≤ c.reduces.completedCnt then some (c, none)
  else
    (c.reduces.take ⟨c.nextTxnID, now⟩).bind fun v =>
      (c.reduceTasks.lookup v.1).map fun task =>
        ({ c with reduces := v.2, nextTxnID := c.nextTxnID + 1 }, some (cloneTask task c.nextTxnID))

/-! ### Completed tasks -/

/-- The reduce task `idx` is created unless there is one. -/
def createReduceTask (idx : ℤ) : Coordinator :=
  if idx ∈ c.reduceTasks then c
  else
    { c with
      reduceTasks := c.reduceTasks.insert idx { isMapTask := false, filenames := [], index := idx }
      reduces := c.reduces.add idx }

/-- The file is added to the reduce task `idx`. -/
def appendFile (idx : ℤ) (filename : GoString) : Coordinator :=
  match c.reduceTasks.lookup idx with
  | none => c
  | some task =>
    { c with
      reduceTasks := c.reduceTasks.insert idx { task with filenames := task.filenames ++ [filename] } }

/-- The loop of `MapTaskDone` over the file names.  A number that cannot be read ends it, with what
has been done so far; a name with fewer than two dashes is a panic. -/
def addFiles : Coordinator → List GoString → Option (Coordinator × Option Err)
  | c, [] => some (c, none)
  | c, filename :: filenames =>
    let parts := filename.splitOn 45
    parts[2]?.bind fun part =>
      match Decimal.parseInt part with
      | none => some (c, some (.atoi part))
      | some idx => addFiles ((c.createReduceTask idx).appendFile idx filename) filenames

/-- `MapTaskDone`; the reply is `true` when there is no error. -/
def mapTaskDone (req : Reply) : Option (Coordinator × Option Err) :=
  if (c.maps.leases.lookup req.index).map Transaction.txnID ≠ some req.txnID then
    some (c, some (.unexpectedMapTxn req.txnID req.index))
  else
    (c.addFiles req.filenames).map fun r =>
      match r.2 with
      | some err => (r.1, some err)
      | none => ({ r.1 with maps := r.1.maps.complete req.index }, none)

/-- `ReduceTaskDone`. -/
def reduceTaskDone (req : Reply) : Coordinator × Option Err :=
  if (c.reduces.leases.lookup req.index).map Transaction.txnID ≠ some req.txnID then
    (c, some (.unexpectedReduceTxn req.txnID req.index))
  else ({ c with reduces := c.reduces.complete req.index }, none)

/-! ### Timeouts -/

/-- The transaction of a task has been running for too long. -/
def timedOut (p : Pool ℤ Transaction) (now : ℤ → ℕ) (i : ℤ) : Bool :=
  match p.leases.lookup i with
  | none => false
  | some txn => timeoutLimit < now i - txn.beginTime

/-- The body of `InspectMapTasks` and `InspectReduceTasks`: `order` is the one in which the
transactions are ranged over, `now i` the time at which the one of task `i` is looked at. -/
def inspect (p : Pool ℤ Transaction) (now : ℤ → ℕ) (order : List ℤ) : Option (Pool ℤ Transaction) :=
  if order.Perm p.leases.keys then some (p.releaseAll (order.filter (timedOut p now))) else none

/-- `InspectMapTasks`. -/
def inspectMapTasks (now : ℤ → ℕ) (order : List ℤ) : Option Coordinator :=
  (inspect c.maps now order).map fun p => { c with maps := p }

/-- `InspectReduceTasks`. -/
def inspectReduceTasks (now : ℤ → ℕ) (order : List ℤ) : Option Coordinator :=
  (inspect c.reduces now order).map fun p => { c with reduces := p }

/-- `Done`. -/
def done : Bool :=
  c.mapTasks.length ≤ c.maps.completedCnt ∧ c.reduceTasks.keys.length ≤ c.reduces.completedCnt

end Coordinator

/-! ### Runs -/

/-- The coordinator, and as a history variable the tasks it has handed out. -/
structure Job where
  coordinator : Coordinator
  handed : List Task

/-- A call of a worker, which may report anything, or an inspection. -/
inductive JobEvent
  | getMapTask (now : ℕ)
  | getReduceTask (now : ℕ)
  | mapTaskDone (req : Reply)
  | reduceTaskDone (req : Reply)
  | inspectMapTasks (now : ℤ → ℕ) (order : List ℤ)
  | inspectReduceTasks (now : ℤ → ℕ) (order : List ℤ)

namespace Job

def init (files : List GoString) (nReduce : ℤ) : Job := ⟨.make files nReduce, []⟩

variable (s : Job)

/-- A task goes out. -/
def hand (r : Coordinator × Option Task) : Job := ⟨r.1, s.handed ++ r.2.toList⟩

def step : JobEvent → Option Job
  | .getMapTask now => (s.coordinator.getMapTask now).map s.hand
  | .getReduceTask now => (s.coordinator.getReduceTask now).map s.hand
  | .mapTaskDone req => (s.coordinator.mapTaskDone req).map fun r => { s with coordinator := r.1 }
  | .reduceTaskDone req => some { s with coordinator := (s.coordinator.reduceTaskDone req).1 }
  | .inspectMapTasks now order =>
    (s.coordinator.inspectMapTasks now order).map fun c => { s with coordinator := c }
  | .inspectReduceTasks now order =>
    (s.coordinator.inspectReduceTasks now order).map fun c => { s with coordinator := c }

end Job

/-! ### What the functions do -/

namespace Coordinator

variable {c c' : Coordinator} {now : ℕ} {task : Option Task} {err : Option Err} {req : Reply}

/-- **Inversion of `GetMapTask`.** -/
lemma getMapTask_cases (h : c.getMapTask now = some (c', task)) :
    c' = c ∧ task = none ∧ c.mapTasks.length ≤ c.maps.completedCnt ∨
    ∃ i p t, c.maps.take ⟨c.nextTxnID, now⟩ = some (i, p) ∧ t ∈ c.mapTasks ∧
      c' = { c with maps := p, nextTxnID := c.nextTxnID + 1 } ∧
      task = some (cloneTask t c.nextTxnID) ∧ c.mapTask i = some t := by
  unfold getMapTask at h
  split_ifs at h with h₁ h₂
  · cases h
    exact Or.inl ⟨rfl, rfl, h₂⟩
  · obtain ⟨⟨i, p⟩, hv, h⟩ := Option.bind_eq_some_iff.1 h
    obtain ⟨t, ht, h⟩ := Option.map_eq_some_iff.1 h
    cases h
    refine Or.inr ⟨i, p, t, hv, ?_, rfl, rfl, ht⟩
    unfold mapTask at ht
    split_ifs at ht
    exact List.mem_of_getElem? ht

/-- **Inversion of `GetReduceTask`.** -/
lemma getReduceTask_cases (h : c.getReduceTask now = some (c', task)) :
    c.mapTasks.length ≤ c.maps.completedCnt ∧
    (c' = c ∧ task = none ∨
    ∃ i p t, c.reduces.take ⟨c.nextTxnID, now⟩ = some (i, p) ∧ c.reduceTasks.lookup i = some t ∧
      c' = { c with reduces := p, nextTxnID := c.nextTxnID + 1 } ∧
      task = some (cloneTask t c.nextTxnID)) := by
  unfold getReduceTask at h
  split_ifs at h with h₁ h₂ h₃
  · cases h
    exact ⟨not_lt.1 h₁, Or.inl ⟨rfl, rfl⟩⟩
  · obtain ⟨⟨i, p⟩, hv, h⟩ := Option.bind_eq_some_iff.1 h
    obtain ⟨t, ht, h⟩ := Option.map_eq_some_iff.1 h
    cases h
    exact ⟨not_lt.1 h₁, Or.inr ⟨i, p, t, hv, ht, rfl, rfl⟩⟩

/-- The loop over the file names changes nothing but the reduce tasks. -/
lemma addFiles_eq {filenames : List GoString} (h : c.addFiles filenames = some (c', err)) :
    ∃ tasks pool, c' = { c with reduceTasks := tasks, reduces := pool } := by
  induction filenames generalizing c with
  | nil =>
    cases h
    exact ⟨_, _, rfl⟩
  | cons filename filenames ih =>
    obtain ⟨part, -, h⟩ := Option.bind_eq_some_iff.1 h
    split at h
    · cases h
      exact ⟨_, _, rfl⟩
    · rename_i idx _
      have hfile : ∃ tasks pool, (c.createReduceTask idx).appendFile idx filename =
          { c with reduceTasks := tasks, reduces := pool } := by
        unfold appendFile createReduceTask
        split <;> split_ifs <;> exact ⟨_, _, rfl⟩
      obtain ⟨tasks, pool, he⟩ := hfile
      rw [he] at h
      obtain ⟨tasks', pool', rfl⟩ := ih h
      exact ⟨tasks', pool', rfl⟩

/-- **Inversion of `MapTaskDone`.** -/
lemma mapTaskDone_cases (h : c.mapTaskDone req = some (c', err)) :
    c' = c ∧ err = some (.unexpectedMapTxn req.txnID req.index) ∨
    (∃ txn, c.maps.leases.lookup req.index = some txn ∧ txn.txnID = req.txnID) ∧
      ∃ c₁, (∃ e, c.addFiles req.filenames = some (c₁, some e) ∧ c' = c₁ ∧ err = some e) ∨
        c.addFiles req.filenames = some (c₁, none) ∧
          c' = { c₁ with maps := c₁.maps.complete req.index } ∧ err = none := by
  unfold mapTaskDone at h
  split at h
  · cases h
    exact Or.inl ⟨rfl, rfl⟩
  · rename_i hl
    obtain ⟨⟨c₁, r⟩, hc₁, h⟩ := Option.map_eq_some_iff.1 h
    refine Or.inr ⟨?_, c₁, ?_⟩
    · obtain ⟨txn, ht, he⟩ := Option.map_eq_some_iff.1 (not_not.1 hl)
      exact ⟨txn, ht, he⟩
    · cases r with
      | some e =>
        cases h
        exact Or.inl ⟨e, hc₁, rfl, rfl⟩
      | none =>
        cases h
        exact Or.inr ⟨hc₁, rfl, rfl⟩

lemma reduceTaskDone_cases (c : Coordinator) (req : Reply) :
    (c.reduceTaskDone req).1 = c ∨
    (∃ txn, c.reduces.leases.lookup req.index = some txn ∧ txn.txnID = req.txnID) ∧
      (c.reduceTaskDone req).1 = { c with reduces := c.reduces.complete req.index } := by
  unfold reduceTaskDone
  split
  · exact Or.inl rfl
  · rename_i hl
    obtain ⟨txn, ht, he⟩ := Option.map_eq_some_iff.1 (not_not.1 hl)
    exact Or.inr ⟨⟨txn, ht, he⟩, rfl⟩

lemma mem_of_timedOut {p : Pool ℤ Transaction} {clock : ℤ → ℕ} {i : ℤ}
    (h : timedOut p clock i = true) : i ∈ p.leases := by
  unfold timedOut at h
  split at h
  · cases h
  · rename_i hl
    exact AList.lookup_isSome.1 (Option.isSome_of_eq_some hl)

/-- An inspection takes back some of the leases, each once. -/
lemma inspect_cases {p p' : Pool ℤ Transaction} {clock : ℤ → ℕ} {order : List ℤ}
    (h : inspect p clock order = some p') :
    ∃ is : List ℤ, is.Nodup ∧ (∀ i ∈ is, i ∈ p.leases) ∧ p' = p.releaseAll is := by
  unfold inspect at h
  split_ifs at h with hp
  cases h
  refine ⟨_, (hp.nodup_iff.2 p.leases.keys_nodup).filter _, fun i hi => ?_, rfl⟩
  exact mem_of_timedOut (List.mem_filter.1 hi).2

end Coordinator

end RaftLabs.MapReduce
