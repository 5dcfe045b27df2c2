import RaftLabs.MapReduce.Coordinator

/-!
# Workers and files

`mr/worker.go`: any number of workers and the coordinator above one file system.  A worker reads its
input in pieces, creates each output file, which truncates it, writes one pair or one line at a time
at its own offset, closes the files, and reports to the coordinator; in between, everything else may
happen, and a worker may stop for ever.  `Map`, `Reduce`, the JSON encoding and `sort.Sort` are
parameters.

Names stand for files: nothing is ever removed or renamed, so that a worker that has a file open and
another one that creates it again share its contents.
-/

namespace RaftLabs.MapReduce

open Lib

structure KeyValue where
  key : GoString
  value : GoString
  deriving DecidableEq

/-- What the workers are started with. -/
structure Program where
  mapf : GoString → GoString → List KeyValue
  reducef : GoString → List GoString → GoString
  /-- One call of `Encode`. -/
  encode : KeyValue → GoString
  /-- The pairs that `Decode` reads before the first error. -/
  decode : GoString → List KeyValue
  /-- `sort.Sort(ByKey(kva))`. -/
  sort : List KeyValue → List KeyValue

/-- The hash `fnv.New32a`. -/
def fnv32a (s : GoString) : UInt32 :=
  s.foldl (fun h b => (h ^^^ b.toUInt32) * 16777619) 2166136261

def ihash (key : GoString) : ℕ := (fnv32a key &&& 0x7fffffff).toNat

/-- The name `mr-<index>-<r>`. -/
def mapFile (index r : ℤ) : GoString :=
  [109, 114, 45] ++ Decimal.formatInt index ++ 45 :: Decimal.formatInt r

/-- The name `mr-out-<index>`. -/
def outFile (index : ℤ) : GoString :=
  [109, 114, 45, 111, 117, 116, 45] ++ Decimal.formatInt index

/-- The file that a pair goes to; `nReduce = 0` is a division by zero. -/
def iFileName (task : Task) (kv : KeyValue) : Option GoString :=
  if task.nReduce = 0 then none
  else some (mapFile task.index ((ihash kv.key : ℤ).tmod task.nReduce))

/-- `ihash(kv.Key) % nReduce`. -/
def bucket (nReduce : ℤ) (key : GoString) : ℤ := (ihash key : ℤ).tmod nReduce

lemma ihash_lt (key : GoString) : ihash key < 2 ^ 31 := by
  unfold ihash
  rw [UInt32.toNat_and]
  exact Nat.and_lt_two_pow _ (by decide)

/-- A bucket is a small number. -/
lemma exists_bucket (nReduce : ℤ) (key : GoString) :
    ∃ r : ℕ, r < 2 ^ 63 ∧ bucket nReduce key = r := by
  have hnonneg : 0 ≤ bucket nReduce key := Int.tmod_nonneg _ (Int.natCast_nonneg _)
  have hmod : (bucket nReduce key).natAbs = ihash key % nReduce.natAbs := Int.natAbs_tmod _ _
  have hle : ihash key % nReduce.natAbs ≤ ihash key := Nat.mod_le _ _
  have hlt := ihash_lt key
  refine ⟨(bucket nReduce key).natAbs, ?_, (Int.natAbs_of_nonneg hnonneg).symm⟩
  rw [hmod]
  omega

/-- A pair goes to a file of the task. -/
lemma exists_of_iFileName {task : Task} {kv : KeyValue} {name : GoString}
    (h : iFileName task kv = some name) : ∃ r : ℕ, r < 2 ^ 63 ∧ name = mapFile task.index r := by
  unfold iFileName at h
  split_ifs at h
  cases h
  obtain ⟨r, hr, he⟩ := exists_bucket task.nReduce kv.key
  exact ⟨r, hr, congrArg (mapFile task.index) he⟩

/-- The lines of an output file: one for each run of equal keys. -/
def outputLines (P : Program) (kva : List KeyValue) : List GoString :=
  (kva.splitBy fun a b => a.key == b.key).filterMap fun run =>
    run.head?.map fun kv => kv.key ++ 32 :: P.reducef kv.key (run.map KeyValue.value) ++ [10]

/-! ### Files -/

abbrev Files := GoString → Option GoString

/-- `os.Create`: the file is empty then. -/
def Files.create (files : Files) (name : GoString) : Files := Function.update files name (some [])

/-- The contents after a write at an offset; a gap is filled with zeros. -/
def writeAt (content : GoString) (offset : ℕ) (bytes : GoString) : GoString :=
  (content ++ List.replicate (offset - content.length) 0).take offset ++ bytes ++
    content.drop (offset + bytes.length)

def Files.write (files : Files) (name : GoString) (offset : ℕ) (bytes : GoString) : Files :=
  Function.update files name ((files name).map fun content => writeAt content offset bytes)

/-! ### Workers -/

/-- Where a worker is in its code. -/
inductive Worker
  /-- About to call `GetTask`. -/
  | idle
  /-- Inside `GetTask`, after `GetMapTask` has returned `false`. -/
  | asking
  /-- Reading the input of a map task. -/
  | mapReading (task : Task) (buffer : GoString)
  /-- The pairs that are left, and the open files with their offsets. -/
  | mapping (task : Task) (kva : List KeyValue) (files : List (GoString × ℕ))
  /-- About to call `MapTaskDone`. -/
  | mapClosed (task : Task) (iFileNames : List GoString)
  /-- Reading the first of the files that are left. -/
  | reduceReading (task : Task) (filenames : List GoString) (buffer : GoString)
      (kva : List KeyValue)
  /-- About to create the output file. -/
  | reduceSorted (task : Task) (lines : List GoString)
  | reducing (task : Task) (lines : List GoString) (offset : ℕ)
  /-- About to call `ReduceTaskDone`. -/
  | reduceClosed (task : Task)
  | exited
  deriving DecidableEq

namespace Worker

/-- A worker that has been given a task. -/
def start (task : Task) : Worker :=
  if task.isMapTask then mapReading task [] else reduceReading task task.filenames [] []

/-- One `Read` of at most `size` bytes, or the end of the file; a file that cannot be opened stops
the worker. -/
def read (P : Program) (files : Files) (size : ℕ) : Worker → Option Worker
  | mapReading task buffer =>
    task.filenames.head?.map fun filename =>
      match files filename with
      | none => exited
      | some content =>
        if content.length ≤ buffer.length then mapping task (P.mapf filename buffer) []
        else mapReading task (buffer ++ (content.drop buffer.length).take size)
  | reduceReading task (filename :: filenames) buffer kva =>
    match files filename with
    | none => some exited
    | some content =>
      if content.length ≤ buffer.length then
        some (reduceReading task filenames [] (kva ++ P.decode buffer))
      else
        some (reduceReading task (filename :: filenames)
          (buffer ++ (content.drop buffer.length).take size) kva)
  | reduceReading task [] _ kva => some (reduceSorted task (outputLines P (P.sort kva)))
  | _ => none

/-- The file that the worker creates next, and where it is then. -/
def create : Worker → Option (GoString × Worker)
  | mapping task (kv :: kva) files =>
    (iFileName task kv).bind fun name =>
      if name ∈ files.map Prod.fst then none
      else some (name, mapping task (kv :: kva) (files ++ [(name, 0)]))
  | reduceSorted task lines => some (outFile task.index, reducing task lines 0)
  | _ => none

/-- What the worker writes next: the file, the offset and the bytes. -/
def write (P : Program) : Worker → Option (GoString × ℕ × GoString × Worker)
  | mapping task (kv :: kva) files =>
    (iFileName task kv).bind fun name =>
      (files.lookup name).map fun offset =>
        let bytes := P.encode kv
        (name, offset, bytes, mapping task kva
          (files.map fun f => if f.1 = name then (name, offset + bytes.length) else f))
  | reducing task (line :: lines) offset =>
    some (outFile task.index, offset, line, reducing task lines (offset + line.length))
  | _ => none

/-- The files are closed when everything is written. -/
def close : Worker → Option Worker
  | mapping task [] files => some (mapClosed task (files.map Prod.fst))
  | reducing task [] _ => some (reduceClosed task)
  | _ => none

end Worker

/-! ### The system -/

structure System where
  coordinator : Coordinator
  files : Files
  workers : ℕ → Worker

inductive Event
  | getTask (w now : ℕ)
  | read (w size : ℕ)
  | create (w : ℕ)
  | write (w : ℕ)
  | close (w : ℕ)
  | report (w : ℕ)
  | crash (w : ℕ)
  | inspectMapTasks (now : ℤ → ℕ) (order : List ℤ)
  | inspectReduceTasks (now : ℤ → ℕ) (order : List ℤ)

namespace System

/-- The coordinator has just been started; the files may hold anything. -/
def init (inputs : List GoString) (nReduce : ℤ) (files : Files) : System :=
  ⟨.make inputs nReduce, files, fun _ => .idle⟩

variable (P : Program) (s : System)

def setWorker (w : ℕ) (worker : Worker) : System :=
  { s with workers := Function.update s.workers w worker }

/-- The two halves of `GetTask`; a worker that is told that all tasks are done stops. -/
def getTask (w now : ℕ) : Option System :=
  match s.workers w with
  | .idle =>
    (s.coordinator.getMapTask now).map fun r =>
      { s with coordinator := r.1 }.setWorker w ((r.2.map Worker.start).getD .asking)
  | .asking =>
    (s.coordinator.getReduceTask now).map fun r =>
      { s with coordinator := r.1 }.setWorker w ((r.2.map Worker.start).getD .exited)
  | _ => none

/-- `MapTaskDone` or `ReduceTaskDone`; a worker whose report is not accepted stops. -/
def report (w : ℕ) : Option System :=
  match s.workers w with
  | .mapClosed task iFileNames =>
    (s.coordinator.mapTaskDone ⟨task.index, task.txnID, iFileNames⟩).map fun r =>
      { s with coordinator := r.1 }.setWorker w (if r.2 = none then .idle else .exited)
  | .reduceClosed task =>
    let r := s.coordinator.reduceTaskDone ⟨task.index, task.txnID, []⟩
    some ({ s with coordinator := r.1 }.setWorker w (if r.2 = none then .idle else .exited))
  | _ => none

def step : Event → Option System
  | .getTask w now => s.getTask w now
  | .read w size => ((s.workers w).read P s.files size).map (s.setWorker w)
  | .create w =>
    (s.workers w).create.map fun r => { s with files := s.files.create r.1 }.setWorker w r.2
  | .write w =>
    ((s.workers w).write P).map fun r =>
      { s with files := s.files.write r.1 r.2.1 r.2.2.1 }.setWorker w r.2.2.2
  | .close w => (s.workers w).close.map (s.setWorker w)
  | .report w => s.report w
  | .crash w => some (s.setWorker w .exited)
  | .inspectMapTasks now order =>
    (s.coordinator.inspectMapTasks now order).map fun c => { s with coordinator := c }
  | .inspectReduceTasks now order =>
    (s.coordinator.inspectReduceTasks now order).map fun c => { s with coordinator := c }

end System

end RaftLabs.MapReduce
