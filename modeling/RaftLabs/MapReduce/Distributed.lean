import RaftLabs.MapReduce.Outputs
import RaftLabs.MapReduce.Sequential

/-!
# Distributed MapReduce

`ProcessMapTask` and `ProcessReduceTask` from beginning to end, for a job in which every task is
done once.  The map tasks split the pairs by the hash of the key, so that all pairs with a key meet
in one reduce task; there they are sorted and printed like the pairs of the sequential program, and
the lines of all output files together are those that it prints (`distributed_eq_sequential`).

The input files are given with their contents, which no worker changes.  A worker's files are its
own: the names tell the tasks apart.
-/

namespace RaftLabs.MapReduce

open Lib Lib.Grouping

variable {P : Program} {files files' : Files} {names : List GoString} {task : Task} {kv : KeyValue}
  {kva : List KeyValue} {filename content : GoString}

/-! ### Map tasks -/

/-- One turn of the loop over the pairs: the file is created if it is not open yet, and the pair is
written to it.  The state is the file system and `iFileNames`. -/
def putPair (P : Program) (task : Task) (st : Files × List GoString) (kv : KeyValue) :
    Option (Files × List GoString) :=
  (iFileName task kv).map fun name =>
    let st := if st.2.contains name then st else (st.1.create name, st.2 ++ [name])
    (st.1.append name (P.encode kv), st.2)

/-- `ProcessMapTask` with the contents of its input file, up to the call of `MapTaskDone`. -/
def processMapTask (P : Program) (task : Task) (content : GoString) (files : Files) :
    Option (Files × List GoString) :=
  task.filenames.head?.bind fun filename =>
    run (putPair P task) (files, []) (P.mapf filename content)

lemma iFileName_eq_mapFile (h : task.nReduce ≠ 0) (kv : KeyValue) :
    iFileName task kv = some (mapFile task.index (bucket task.nReduce kv.key)) :=
  if_neg h

/-- The pairs that go to a file. -/
def pairsFor (task : Task) (kva : List KeyValue) (name : GoString) : List KeyValue :=
  kva.filter fun kv => mapFile task.index (bucket task.nReduce kv.key) = name

lemma pairsFor_concat (task : Task) (kva : List KeyValue) (kv : KeyValue) (name : GoString) :
    pairsFor task (kva ++ [kv]) name = pairsFor task kva name ++
      if mapFile task.index (bucket task.nReduce kv.key) = name then [kv] else [] := by
  unfold pairsFor
  rw [List.filter_append, List.filter_singleton]
  simp

/-- **What the loop has done** for the pairs `kva`: the open files are those of the pairs, and each
holds its own. -/
structure Written (P : Program) (task : Task) (files : Files) (kva : List KeyValue)
    (st : Files × List GoString) : Prop where
  nodup : st.2.Nodup
  opened : ∀ name, name ∈ st.2 ↔ pairsFor task kva name ≠ []
  content : ∀ name ∈ st.2, st.1 name = some ((pairsFor task kva name).flatMap P.encode)
  others : ∀ name ∉ st.2, st.1 name = files name

lemma written_nil (P : Program) (task : Task) (files : Files) :
    Written P task files [] (files, []) :=
  ⟨List.nodup_nil, by simp [pairsFor], by simp, fun _ _ => rfl⟩

/-- The file of the next pair is open before the pair is written. -/
lemma Written.openFile {st : Files × List GoString} (hw : Written P task files kva st)
    (name : GoString) :
    ∃ st₁ : Files × List GoString,
      (if st.2.contains name then st else (st.1.create name, st.2 ++ [name])) = st₁ ∧
      st₁.2.Nodup ∧
      (∀ x, x ∈ st₁.2 ↔ x = name ∨ pairsFor task kva x ≠ []) ∧
      (∀ x ∈ st₁.2, st₁.1 x = some ((pairsFor task kva x).flatMap P.encode)) ∧
      ∀ x ∉ st₁.2, st₁.1 x = files x := by
  by_cases hmem : name ∈ st.2
  · refine ⟨st, if_pos (List.contains_iff_mem.2 hmem), hw.nodup, fun x => ?_, hw.content, hw.others⟩
    rw [← hw.opened]
    exact ⟨Or.inr, fun hx => hx.elim (fun he => he ▸ hmem) id⟩
  · have hnone : pairsFor task kva name = [] := not_not.1 ((hw.opened name).not.1 hmem)
    refine ⟨_, if_neg (List.contains_iff_mem.not.2 hmem), ?_, fun x => ?_, fun x hx => ?_,
      fun x hx => ?_⟩
    · simpa [List.nodup_append] using ⟨hw.nodup, fun a ha he => hmem (he ▸ ha)⟩
    · simp [hw.opened, or_comm]
    · by_cases he : x = name
      · subst he
        simp [Files.create, hnone]
      · have hx' : x ∈ st.2 := by simpa [he] using hx
        simpa [Files.create, he] using hw.content x hx'
    · have hx' : x ∉ st.2 ∧ x ≠ name := by simpa using hx
      simpa [Files.create, hx'.2] using hw.others x hx'.1

/-- **One turn of the loop.** -/
lemma Written.putPair {st : Files × List GoString} (hw : Written P task files kva st)
    (h : task.nReduce ≠ 0) (kv : KeyValue) :
    ∃ st', putPair P task st kv = some st' ∧ Written P task files (kva ++ [kv]) st' := by
  set name := mapFile task.index (bucket task.nReduce kv.key) with hname
  obtain ⟨st₁, hst₁, hnodup, hopened, hcontent, hothers⟩ := hw.openFile name
  refine ⟨(st₁.1.append name (P.encode kv), st₁.2), ?_, hnodup, fun x => ?_, fun x hx => ?_,
    fun x hx => ?_⟩
  · rw [MapReduce.putPair, iFileName_eq_mapFile h, Option.map_some, ← hname, hst₁]
  · rw [hopened, pairsFor_concat, ← hname]
    by_cases he : name = x
    · simp [he]
    · simp [he, Ne.symm he]
  · rw [pairsFor_concat, ← hname]
    by_cases he : name = x
    · subst he
      simp [Files.append, hcontent name hx]
    · simp [Files.append, Ne.symm he, he, hcontent x hx]
  · have hne : x ≠ name := fun he => hx ((hopened x).2 (Or.inl he))
    simpa [Files.append, hne] using hothers x hx

/-- **The whole loop.** -/
lemma run_putPair (P : Program) (h : task.nReduce ≠ 0) (kva : List KeyValue) (files : Files) :
    ∃ st, run (putPair P task) (files, []) kva = some st ∧ Written P task files kva st :=
  run_accumulates (Q := Written P task files) (written_nil P task files)
    fun _ kv _ _ _ hw => hw.putPair h kv

/-! ### The map phase -/

/-- Map task `i` as `GetMapTask` hands it out when no task is handed out twice. -/
def taskOf (nReduce : ℤ) (i : ℕ) (input : Input) : Task where
  isMapTask := true
  filenames := [input.filename]
  index := i
  nReduce := nReduce
  txnID := i

/-- All map tasks go out. -/
def handOut (inputs : List Input) (nReduce : ℤ) : Option Journal :=
  run Journal.step (Journal.init (inputs.map Input.filename) nReduce)
    (List.replicate inputs.length (.getMapTask 0))

/-- A worker does a map task and reports. -/
def finishMapTask (P : Program) (inputs : List Input) (st : Files × Journal) (task : Task) :
    Option (Files × Journal) :=
  inputs[task.index.toNat]?.bind fun input =>
  (processMapTask P task input.content st.1).bind fun r =>
  (st.2.step (.mapTaskDone ⟨task.index, task.txnID, r.2⟩)).map fun s => (r.1, s)

variable {inputs : List Input} {nReduce : ℤ} {s : Journal} {k : ℕ}

/-- The first `k` map tasks are out. -/
structure HandedOut (inputs : List Input) (nReduce : ℤ) (k : ℕ) (s : Journal) : Prop where
  inv : s.Inv inputs.length
  accepted : s.accepted = []
  mapTasks : s.job.coordinator.mapTasks =
    (Coordinator.make (inputs.map Input.filename) nReduce).mapTasks
  queue : s.job.coordinator.maps.queue =
    (List.range' k (inputs.length - k)).map fun i : ℕ => (i : ℤ)
  nextTxnID : s.job.coordinator.nextTxnID = k
  handed : s.job.handed = (inputs.take k).mapIdx (taskOf nReduce)
  leases : ∀ i : ℕ, i < k → s.job.coordinator.maps.leases.lookup (i : ℤ) = some ⟨i, 0⟩

lemma handedOut_init (inputs : List Input) (nReduce : ℤ) :
    HandedOut inputs nReduce 0 (Journal.init (inputs.map Input.filename) nReduce) where
  inv := by simpa using Journal.inv_init (inputs.map Input.filename) nReduce
  accepted := rfl
  mapTasks := rfl
  queue := by
    show ((List.range (inputs.map Input.filename).length).foldl
      (fun p (i : ℕ) => p.add (i : ℤ)) (Pool.empty : Pool ℤ Transaction)).queue = _
    rw [List.length_map, Nat.sub_zero, ← List.range_eq_range']
    generalize inputs.length = n
    induction n with
    | zero => rfl
    | succ n ih =>
      rw [List.range_succ, List.foldl_concat, List.map_append]
      exact congrArg (· ++ [(n : ℤ)]) ih
  nextTxnID := rfl
  handed := by simp [Journal.init, Job.init]
  leases i hi := absurd hi (Nat.not_lt_zero i)

/-- The next task is the one that goes out. -/
lemma HandedOut.getMapTask (h : HandedOut inputs nReduce k s) (hk : k < inputs.length) :
    ∃ p : Pool ℤ Transaction,
      s.job.coordinator.getMapTask 0 = some
        ({ s.job.coordinator with maps := p, nextTxnID := s.job.coordinator.nextTxnID + 1 },
          some (taskOf nReduce k inputs[k])) ∧
      p.queue = (List.range' (k + 1) (inputs.length - (k + 1))).map (fun i : ℕ => (i : ℤ)) ∧
      p.leases = s.job.coordinator.maps.leases.insert (k : ℤ)
        (⟨s.job.coordinator.nextTxnID, 0⟩ : Transaction) := by
  have hlength : s.job.coordinator.mapTasks.length = inputs.length := h.inv.job.tables.length
  have hcnt : s.job.coordinator.maps.completedCnt = 0 := by
    rw [h.inv.count, h.accepted]
    rfl
  have hqueue : s.job.coordinator.maps.queue =
      (k : ℤ) :: (List.range' (k + 1) (inputs.length - (k + 1))).map fun i : ℕ => (i : ℤ) := by
    rw [h.queue, show inputs.length - k = inputs.length - (k + 1) + 1 by omega,
      List.range'_succ, List.map_cons]
  have htask : s.job.coordinator.mapTask k = some
      { isMapTask := true, filenames := [inputs[k].filename], index := k, nReduce := nReduce } := by
    rw [Coordinator.mapTask, if_pos (Int.natCast_nonneg k), h.mapTasks]
    simp [Coordinator.make, hk]
  obtain ⟨p, htake, hp, hleases⟩ :=
    Pool.exists_take hqueue (⟨s.job.coordinator.nextTxnID, 0⟩ : Transaction)
  refine ⟨p, ?_, hp, hleases⟩
  unfold Coordinator.getMapTask
  rw [if_neg (by simp [hqueue]), if_neg (by omega), htake, Option.bind_some, htask, h.nextTxnID]
  rfl

lemma HandedOut.step (h : HandedOut inputs nReduce k s) (hk : k < inputs.length) :
    ∃ s', s.step (.getMapTask 0) = some s' ∧ HandedOut inputs nReduce (k + 1) s' := by
  obtain ⟨p, hget, hp, hleases⟩ := h.getMapTask hk
  have hs : s.step (.getMapTask 0) = some ⟨⟨{ s.job.coordinator with
      maps := p, nextTxnID := s.job.coordinator.nextTxnID + 1 },
      s.job.handed ++ [taskOf nReduce k inputs[k]]⟩, s.accepted ++ []⟩ := by
    simp only [Journal.step, Job.step, hget, Option.map_some]
    rfl
  refine ⟨_, hs, h.inv.step (e := .getMapTask 0) trivial hs, ?_, h.mapTasks, hp, ?_, ?_, ?_⟩
  · rw [List.append_nil, h.accepted]
  · simp [h.nextTxnID]
  · simp only [h.handed, List.take_succ_eq_append_getElem hk, List.mapIdx_concat,
      List.length_take_of_le hk.le]
  · intro i hi
    show p.leases.lookup (i : ℤ) = _
    rw [hleases]
    by_cases he : i = k
    · rw [he, AList.lookup_insert, h.nextTxnID]
    · rw [AList.lookup_insert_ne (by exact_mod_cast he)]
      exact h.leases i (by omega)

/-- **All map tasks go out.** -/
lemma exists_handOut (inputs : List Input) (nReduce : ℤ) :
    ∃ s, handOut inputs nReduce = some s ∧ HandedOut inputs nReduce inputs.length s := by
  have hrun : ∃ s, handOut inputs nReduce = some s ∧ HandedOut inputs nReduce
      (List.replicate inputs.length (JobEvent.getMapTask 0)).length s := by
    refine run_accumulates (Q := fun done s => HandedOut inputs nReduce done.length s)
      (handedOut_init inputs nReduce) fun done e todo s he h => ?_
    have hlength := congrArg List.length he
    simp only [List.length_replicate, List.length_append, List.length_cons] at hlength
    have hmem : e ∈ List.replicate inputs.length (JobEvent.getMapTask 0) := by simp [he]
    obtain rfl := List.eq_of_mem_replicate hmem
    obtain ⟨s', hs', h'⟩ := h.step (by omega)
    exact ⟨s', hs', by simpa using h'⟩
  rw [List.length_replicate] at hrun
  exact hrun

/-- The pairs of map task `i` that go to a file. -/
def taskPairs (P : Program) (nReduce : ℤ) (i : ℕ) (input : Input) (name : GoString) :
    List KeyValue :=
  pairsFor (taskOf nReduce i input) (P.mapf input.filename input.content) name

/-- The files of map task `i` are complete. -/
def Mapped (P : Program) (nReduce : ℤ) (files : Files) (i : ℕ) (input : Input) : Prop :=
  ∀ name, taskPairs P nReduce i input name ≠ [] →
    files name = some ((taskPairs P nReduce i input name).flatMap P.encode)

/-- The completion reports the files of map task `i`. -/
def IsReport (P : Program) (nReduce : ℤ) (i : ℕ) (input : Input) (req : Reply) : Prop :=
  req.index = i ∧ ∀ name, name ∈ req.filenames ↔ taskPairs P nReduce i input name ≠ []

/-- A file of map task `i` has the name of one. -/
lemma exists_mapFile {i : ℕ} {input : Input} {name : GoString}
    (h : taskPairs P nReduce i input name ≠ []) :
    ∃ r : ℕ, r < 2 ^ 63 ∧ name = mapFile i r := by
  obtain ⟨kv, hkv⟩ := List.exists_mem_of_ne_nil _ h
  obtain ⟨r, hr, he⟩ := exists_bucket nReduce kv.key
  refine ⟨r, hr, ?_⟩
  rw [← he]
  exact (of_decide_eq_true (List.mem_filter.1 hkv).2).symm

/-- The files of another map task are not touched. -/
lemma Written.mapped_of_ne {i j : ℕ} {input input' : Input} {st : Files × List GoString}
    (hw : Written P (taskOf nReduce i input) files (P.mapf input.filename input.content) st)
    (hne : j ≠ i) (h : Mapped P nReduce files j input') : Mapped P nReduce st.1 j input' := by
  intro name hname
  rw [← h name hname]
  refine hw.others name fun hmem => hne ?_
  obtain ⟨r, -, hr⟩ := exists_mapFile hname
  obtain ⟨r', -, hr'⟩ := exists_mapFile ((hw.opened name).1 hmem)
  exact mapFile_injective (hr.symm.trans hr')

/-- **The map phase, with the tasks `todo` still out**: the others are complete and reported. -/
structure Progress (P : Program) (inputs : List Input) (nReduce : ℤ) (todo : List Task)
    (st : Files × Journal) : Prop where
  inv : st.2.Inv inputs.length
  distinct : (todo.map Task.index).Nodup
  isTask : ∀ t ∈ todo, ∃ i input, inputs[i]? = some input ∧ t = taskOf nReduce i input
  current : ∀ t ∈ todo,
    (st.2.job.coordinator.maps.leases.lookup t.index).map Transaction.txnID = some t.txnID
  finished : ∀ i input, inputs[i]? = some input → taskOf nReduce i input ∉ todo →
    Mapped P nReduce st.1 i input ∧ ∃ req ∈ st.2.accepted, req.index = i
  reports : ∀ req ∈ st.2.accepted, ∃ i input, inputs[i]? = some input ∧
    IsReport P nReduce i input req

lemma HandedOut.progress (h : HandedOut inputs nReduce inputs.length s) (files : Files)
    {todo : List Task} (htodo : todo.Perm s.job.handed) :
    Progress P inputs nReduce todo (files, s) := by
  have hhanded : s.job.handed = inputs.mapIdx (taskOf nReduce) := by
    rw [h.handed, List.take_length]
  have hmem : ∀ t, t ∈ todo ↔ ∃ i input, inputs[i]? = some input ∧ t = taskOf nReduce i input := by
    intro t
    rw [htodo.mem_iff, hhanded, List.mem_mapIdx]
    constructor
    · rintro ⟨i, hi, rfl⟩
      exact ⟨i, inputs[i], List.getElem?_eq_getElem hi, rfl⟩
    · rintro ⟨i, input, hi, rfl⟩
      obtain ⟨hlt, rfl⟩ := List.getElem?_eq_some_iff.1 hi
      exact ⟨i, hlt, rfl⟩
  refine ⟨h.inv, ?_, fun t ht => (hmem t).1 ht, fun t ht => ?_, fun i input hi hnot => ?_, ?_⟩
  · -- the tasks have the numbers of their transactions
    have hindex : todo.map Task.index = todo.map Task.txnID := by
      refine List.map_congr_left fun t ht => ?_
      obtain ⟨i, input, -, rfl⟩ := (hmem t).1 ht
      rfl
    rw [hindex, (htodo.map Task.txnID).nodup_iff]
    exact h.inv.job.distinct
  · obtain ⟨i, input, hi, rfl⟩ := (hmem t).1 ht
    show (s.job.coordinator.maps.leases.lookup (i : ℤ)).map Transaction.txnID = some (i : ℤ)
    rw [h.leases i (List.getElem?_eq_some_iff.1 hi).1]
    rfl
  · exact absurd ((hmem _).2 ⟨i, input, hi, rfl⟩) hnot
  · intro req hreq
    rw [h.accepted] at hreq
    exact absurd hreq List.not_mem_nil

/-- **A worker does one of the tasks that are out.** -/
lemma Progress.finish {t : Task} {todo : List Task} {st : Files × Journal} (hn : nReduce ≠ 0)
    (h : Progress P inputs nReduce (t :: todo) st) :
    ∃ st', finishMapTask P inputs st t = some st' ∧ Progress P inputs nReduce todo st' := by
  obtain ⟨i, input, hi, rfl⟩ := h.isTask t List.mem_cons_self
  obtain ⟨⟨files, names⟩, hrun, hw⟩ := run_putPair P
    (show (taskOf nReduce i input).nReduce ≠ 0 from hn) (P.mapf input.filename input.content) st.1
  set req : Reply := ⟨(i : ℤ), (i : ℤ), names⟩ with hreq
  have hreport : IsReport P nReduce i input req := ⟨rfl, hw.opened⟩
  have hnamed : req.WellNamed :=
    ⟨hw.nodup, fun name hname => exists_mapFile ((hw.opened name).1 hname)⟩
  obtain ⟨s, hs, haccepted, hleases⟩ := h.inv.exists_accept hnamed
    (h.current _ List.mem_cons_self)
  obtain ⟨hnot, hdistinct⟩ := List.nodup_cons.1 h.distinct
  refine ⟨(files, s), ?_, h.inv.step (e := .mapTaskDone req) hnamed hs, hdistinct,
    fun t ht => h.isTask t (List.mem_cons_of_mem _ ht), fun t ht => ?_, fun j input' hj htodo => ?_,
    fun req' hreq' => ?_⟩
  · have hindex : inputs[(taskOf nReduce i input).index.toNat]? = some input := hi
    have hprocess : processMapTask P (taskOf nReduce i input) input.content st.1 =
        some (files, names) := hrun
    rw [finishMapTask, hindex, Option.bind_some, hprocess, Option.bind_some]
    exact congrArg (Option.map _) hs
  · show (s.job.coordinator.maps.leases.lookup t.index).map Transaction.txnID = some t.txnID
    have hne : t.index ≠ req.index := fun he => hnot (List.mem_map.2 ⟨t, ht, he⟩)
    rw [hleases _ hne]
    exact h.current t (List.mem_cons_of_mem _ ht)
  · by_cases hji : j = i
    · -- the task that is done now
      subst hji
      obtain rfl : input = input' := Option.some.inj (hi.symm.trans hj)
      refine ⟨fun name hname => hw.content name ((hw.opened name).2 hname), req, ?_, rfl⟩
      rw [haccepted]
      simp
    · have hout : taskOf nReduce j input' ∉ taskOf nReduce i input :: todo := by
        rw [List.mem_cons, not_or]
        refine ⟨fun he => hji ?_, htodo⟩
        have hindex : (j : ℤ) = i := congrArg Task.index he
        exact_mod_cast hindex
      obtain ⟨hmapped, req', hreq', he⟩ := h.finished j input' hj hout
      refine ⟨hw.mapped_of_ne hji hmapped, req', ?_, he⟩
      rw [haccepted]
      exact List.mem_append_left _ hreq'
  · rw [haccepted] at hreq'
    rcases List.mem_append.1 hreq' with hreq' | hreq'
    · exact h.reports req' hreq'
    · rw [List.mem_singleton.1 hreq']
      exact ⟨i, input, hi, hreport⟩

/-- **The map phase ends**, in whatever order the workers finish. -/
lemma Progress.run {todo : List Task} {st : Files × Journal} (hn : nReduce ≠ 0)
    (h : Progress P inputs nReduce todo st) :
    ∃ st', Lib.run (finishMapTask P inputs) st todo = some st' ∧
      Progress P inputs nReduce [] st' :=
  run_total (Q := Progress P inputs nReduce) (fun _ _ _ h => h.finish hn) h

/-! ### The files of a reduce task -/

variable {st : Files × Journal} {r : ℤ}

lemma taskPairs_mapFile (P : Program) (nReduce : ℤ) (i : ℕ) (input : Input) (r : ℤ) :
    taskPairs P nReduce i input (mapFile i r) =
      (P.mapf input.filename input.content).filter fun kv => bucket nReduce kv.key = r := by
  refine List.filter_congr fun kv _ => ?_
  rw [decide_eq_decide]
  exact ⟨mapFile_right_injective, fun h => by rw [← h]; rfl⟩

/-- The reduce task has the files of the map tasks that have pairs for it. -/
lemma Progress.mem_filesOf (h : Progress P inputs nReduce [] st) {name : GoString} :
    name ∈ st.2.job.coordinator.filesOf r ↔ ∃ i input, inputs[i]? = some input ∧
      taskPairs P nReduce i input name ≠ [] ∧ name = mapFile i r := by
  rw [h.inv.files, h.inv.mem_filesFor]
  constructor
  · rintro ⟨req, hreq, hname, he⟩
    obtain ⟨i, input, hi, hindex, hnames⟩ := h.reports req hreq
    exact ⟨i, input, hi, (hnames name).1 hname, hindex ▸ he⟩
  · rintro ⟨i, input, hi, hpairs, he⟩
    obtain ⟨req, hreq, hindex⟩ := (h.finished i input hi List.not_mem_nil).2
    obtain ⟨i', input', hi', hindex', hnames⟩ := h.reports req hreq
    obtain rfl : i = i' := by exact_mod_cast hindex.symm.trans hindex'
    obtain rfl : input = input' := Option.some.inj (hi.symm.trans hi')
    exact ⟨req, hreq, (hnames name).2 hpairs, hindex ▸ he⟩

/-- The input files with their numbers are different. -/
lemma nodup_zipIdx {α : Type*} (l : List α) : l.zipIdx.Nodup :=
  (List.nodup_zipIdx_map_snd l).of_map Prod.snd

/-- The files of reduce task `r` in the order of the map tasks. -/
lemma Progress.filesOf_perm (h : Progress P inputs nReduce [] st) (r : ℤ) :
    (st.2.job.coordinator.filesOf r).Perm
      ((inputs.zipIdx.filter fun p => taskPairs P nReduce p.2 p.1 (mapFile p.2 r) ≠ []).map
        fun p => mapFile p.2 r) := by
  have hnodup : (st.2.job.coordinator.filesOf r).Nodup := by
    rw [h.inv.files]
    exact h.inv.filesFor_nodup r
  refine (List.perm_ext_iff_of_nodup hnodup (((nodup_zipIdx _).filter _).map_on ?_)).2 fun name => ?_
  · rintro ⟨input, i⟩ hp ⟨input', i'⟩ hp' he
    obtain ⟨hmem, hpairs⟩ := List.mem_filter.1 hp
    obtain ⟨hmem', hpairs'⟩ := List.mem_filter.1 hp'
    obtain ⟨k, -, hk⟩ := exists_mapFile (of_decide_eq_true hpairs)
    obtain ⟨k', -, hk'⟩ := exists_mapFile (of_decide_eq_true hpairs')
    obtain rfl : i = i' := mapFile_injective (hk.symm.trans (he.trans hk'))
    rw [List.mk_mem_zipIdx_iff_getElem?] at hmem hmem'
    rw [Option.some.inj (hmem.symm.trans hmem')]
  · rw [h.mem_filesOf]
    simp only [List.mem_map, List.mem_filter, Prod.exists, List.mk_mem_zipIdx_iff_getElem?,
      decide_eq_true_iff]
    constructor
    · rintro ⟨i, input, hi, hpairs, rfl⟩
      exact ⟨input, i, ⟨hi, hpairs⟩, rfl⟩
    · rintro ⟨input, i, ⟨hi, hpairs⟩, rfl⟩
      exact ⟨i, input, hi, hpairs, rfl⟩

/-! ### Reduce tasks -/

/-- One turn of the loop of `ProcessReduceTask` over its files; a file that cannot be opened stops
the worker. -/
def readFile (P : Program) (files : Files) (kva : List KeyValue) (filename : GoString) :
    Option (List KeyValue) :=
  (files filename).map fun content => kva ++ P.decode content

/-- `ProcessReduceTask`, up to the call of `ReduceTaskDone`. -/
def processReduceTask (P : Program) (files : Files) (task : Task) : Option Files :=
  (run (readFile P files) [] task.filenames).map fun kva =>
    files.print (outFile task.index) (reduceLoop P (P.sort kva) 0)

/-- The pairs that are in these files. -/
def readPairs (P : Program) (files : Files) (names : List GoString) : List KeyValue :=
  names.flatMap fun name => P.decode ((files name).getD [])

lemma run_readFile (h : ∀ name ∈ names, files name ≠ none) :
    run (readFile P files) [] names = some (readPairs P files names) := by
  obtain ⟨kva, hrun, rfl⟩ : ∃ kva, run (readFile P files) [] names = some kva ∧
      kva = readPairs P files names := by
    refine run_accumulates (Q := fun done kva => kva = readPairs P files done) rfl
      fun done name todo kva he hkva => ?_
    obtain ⟨content, hc⟩ := Option.ne_none_iff_exists'.1 (h name (by simp [he]))
    refine ⟨kva ++ P.decode content, by simp [readFile, hc], ?_⟩
    simp [readPairs, hkva, hc]
  exact hrun

/-- **A reduce task reads the pairs of its bucket**, in some order. -/
lemma Progress.readPairs_perm (hP : P.Lawful) (h : Progress P inputs nReduce [] st)
    (hnames : names.Perm (st.2.job.coordinator.filesOf r)) :
    (readPairs P st.1 names).Perm
      ((intermediate P inputs).filter fun kv => bucket nReduce kv.key = r) := by
  set part : Input × ℕ → List KeyValue := fun p => taskPairs P nReduce p.2 p.1 (mapFile p.2 r)
    with hpart
  have hdecode : ∀ p ∈ inputs.zipIdx, part p ≠ [] →
      P.decode ((st.1 (mapFile p.2 r)).getD []) = part p := by
    rintro ⟨input, i⟩ hp hne
    have hi := List.mk_mem_zipIdx_iff_getElem?.1 hp
    rw [(h.finished i input hi List.not_mem_nil).1 _ hne, Option.getD_some]
    refine hP.decode _ fun kv hkv => hP.valid _ _ kv (List.mem_filter.1 hkv).1
  have hall : inputs.zipIdx.flatMap part =
      (intermediate P inputs).filter fun kv => bucket nReduce kv.key = r := by
    rw [intermediate, List.filter_flatMap]
    conv_rhs => rw [← List.zipIdx_map_fst 0 inputs, List.flatMap_map]
    refine List.flatMap_congr fun p _ => ?_
    exact taskPairs_mapFile P nReduce p.2 p.1 r
  calc (readPairs P st.1 names).Perm (readPairs P st.1
        ((inputs.zipIdx.filter fun p => part p ≠ []).map fun p : Input × ℕ => mapFile p.2 r)) :=
        (hnames.trans (h.filesOf_perm r)).flatMap_right _
    _ = (inputs.zipIdx.filter fun p => part p ≠ []).flatMap part := by
        rw [readPairs, List.flatMap_map]
        refine List.flatMap_congr fun p hp => ?_
        obtain ⟨hmem, hne⟩ := List.mem_filter.1 hp
        exact hdecode p hmem (of_decide_eq_true hne)
    _ = inputs.zipIdx.flatMap part := flatMap_filter_ne_nil _ _
    _ = (intermediate P inputs).filter fun kv => bucket nReduce kv.key = r := hall

/-! ### The reduce phase -/

/-- What reduce task `t` prints when the files are `files`. -/
def printed (P : Program) (files : Files) (t : Task) : List (GoString × GoString) :=
  reduceLoop P (P.sort (readPairs P files t.filenames)) 0

/-- The tasks of the reduce phase: every reduce task once, each with its files in any order. -/
structure Covers (c : Coordinator) (tasks : List Task) : Prop where
  all : (tasks.map Task.index).Perm c.reduceTasks.keys
  files : ∀ t ∈ tasks, t.filenames.Perm (c.filesOf t.index)

lemma Covers.nodup {c : Coordinator} {tasks : List Task} (h : Covers c tasks) :
    (tasks.map Task.index).Nodup :=
  h.all.nodup_iff.2 c.reduceTasks.keys_nodup

/-- Reduce task `r` with the files that the coordinator has for it. -/
def Coordinator.reduceTask (c : Coordinator) (r : ℤ) : Task :=
  { isMapTask := false, filenames := c.filesOf r, index := r }

lemma Coordinator.covers_keys (c : Coordinator) : Covers c (c.reduceTasks.keys.map c.reduceTask) := by
  refine ⟨?_, fun t ht => ?_⟩
  · rw [List.map_map]
    exact .of_eq (List.map_id _)
  · obtain ⟨r, -, rfl⟩ := List.mem_map.1 ht
    exact .refl _

/-- The output files do not disturb the intermediate ones. -/
lemma readPairs_congr (hsame : ∀ i r : ℕ, files' (mapFile i r) = files (mapFile i r))
    (hnames : ∀ name ∈ names, ∃ i r : ℕ, name = mapFile i r) :
    readPairs P files' names = readPairs P files names := by
  refine List.flatMap_congr fun name hname => ?_
  obtain ⟨i, r, rfl⟩ := hnames name hname
  rw [hsame]

/-- **The reduce phase, with the tasks `done` finished**, when the map phase has left `files₁`. -/
structure Reduced (P : Program) (files₁ : Files) (done : List Task) (files : Files) : Prop where
  kept : ∀ i r : ℕ, files (mapFile i r) = files₁ (mapFile i r)
  out : ∀ t ∈ done, files (outFile t.index) = some ((printed P files₁ t).flatMap line)

/-- **A worker does one of the reduce tasks.** -/
lemma Reduced.finish {files₁ : Files} {done : List Task} (h : Reduced P files₁ done files)
    (hnames : ∀ name ∈ task.filenames, files₁ name ≠ none ∧ ∃ i r : ℕ, name = mapFile i r)
    (hnew : ∀ t ∈ done, t.index ≠ task.index) :
    ∃ files', processReduceTask P files task = some files' ∧
      Reduced P files₁ (done ++ [task]) files' := by
  have hread : run (readFile P files) [] task.filenames =
      some (readPairs P files₁ task.filenames) := by
    rw [run_readFile fun name hname => ?_,
      readPairs_congr h.kept fun name hname => (hnames name hname).2]
    obtain ⟨hsome, i, r, rfl⟩ := hnames name hname
    rw [h.kept]
    exact hsome
  refine ⟨files.print (outFile task.index) (printed P files₁ task), ?_, fun i r => ?_,
    fun t ht => ?_⟩
  · rw [processReduceTask, hread]
    rfl
  · rw [Files.print_eq, Function.update_of_ne (mapFile_ne_outFile i r _), h.kept]
  · rw [Files.print_eq]
    rcases List.mem_append.1 ht with ht | ht
    · rw [Function.update_of_ne fun hout => hnew t ht (outFile_injective hout), h.out t ht]
    · rw [List.mem_singleton.1 ht, Function.update_self]

/-- **The reduce phase ends**, in whatever order the workers finish. -/
lemma Progress.reduce (h : Progress P inputs nReduce [] st) {tasks : List Task}
    (hc : Covers st.2.job.coordinator tasks) :
    ∃ files, Lib.run (processReduceTask P) st.1 tasks = some files ∧
      Reduced P st.1 tasks files := by
  have hnames : ∀ t ∈ tasks, ∀ name ∈ t.filenames, st.1 name ≠ none ∧
      ∃ i r : ℕ, name = mapFile i r := by
    intro t ht name hname
    obtain ⟨i, input, hi, hpairs, -⟩ := h.mem_filesOf.1 ((hc.files t ht).mem_iff.1 hname)
    obtain ⟨r, -, hr⟩ := exists_mapFile hpairs
    rw [(h.finished i input hi List.not_mem_nil).1 name hpairs]
    exact ⟨by simp, i, r, hr⟩
  refine run_accumulates (Q := Reduced P st.1)
    ⟨fun _ _ => rfl, fun _ ht => absurd ht List.not_mem_nil⟩ fun done t todo files he hr => ?_
  refine hr.finish (hnames t (by simp [he])) fun t' ht' => ?_
  -- another reduce task has another number
  have hdistinct := hc.nodup
  rw [he, List.map_append, List.map_cons, List.nodup_append] at hdistinct
  exact hdistinct.2.2 _ (List.mem_map_of_mem ht') _ List.mem_cons_self

/-! ### Both programs print the same lines -/

/-- There is a reduce task for every bucket that is not empty. -/
lemma Progress.bucket_mem (h : Progress P inputs nReduce [] st) (hkv : kv ∈ intermediate P inputs) :
    bucket nReduce kv.key ∈ st.2.job.coordinator.reduceTasks := by
  obtain ⟨input, hinput, hmem⟩ := List.mem_flatMap.1 hkv
  obtain ⟨i, hi⟩ := List.mem_iff_getElem?.1 hinput
  have hfile : mapFile i (bucket nReduce kv.key) ∈
      st.2.job.coordinator.filesOf (bucket nReduce kv.key) := by
    refine h.mem_filesOf.2 ⟨i, input, hi, ?_, rfl⟩
    rw [taskPairs_mapFile]
    exact List.ne_nil_of_mem (List.mem_filter.2 ⟨hmem, decide_eq_true rfl⟩)
  by_contra hnot
  rw [Coordinator.filesOf, AList.lookup_eq_none.2 hnot] at hfile
  exact absurd hfile List.not_mem_nil

/-- The keys that a reduce task prints are those of its bucket. -/
lemma Progress.bucket_eq (hP : P.Lawful) (h : Progress P inputs nReduce [] st) {t : Task}
    (hfiles : t.filenames.Perm (st.2.job.coordinator.filesOf t.index)) {key : GoString}
    (hkey : key ∈ (printed P st.1 t).map Prod.fst) : bucket nReduce key = t.index := by
  obtain ⟨kv, hkv, rfl⟩ := (mem_keys hP).1 hkey
  rw [(h.readPairs_perm hP hfiles).mem_iff] at hkv
  exact of_decide_eq_true (List.mem_filter.1 hkv).2

/-- **The reduce tasks together print what the sequential program prints.** -/
lemma Progress.printed_perm (hP : P.Lawful) (h : Progress P inputs nReduce [] st)
    {tasks : List Task} (hc : Covers st.2.job.coordinator tasks) :
    (tasks.flatMap (printed P st.1)).Perm (sequential P inputs) := by
  have hkeys : (st.2.job.coordinator.reduceTasks.keys : Multiset ℤ) =
      st.2.job.coordinator.reduceIndices.val :=
    (List.dedup_eq_self.2 st.2.job.coordinator.reduceTasks.keys_nodup ▸ rfl)
  rw [← Multiset.coe_eq_coe, sequential, reduceLoop_sort hP, ← Multiset.coe_bind]
  calc ((tasks : Multiset Task).bind fun t => (printed P st.1 t : Multiset _))
      = (tasks : Multiset Task).bind fun t => reduceKeys KeyValue.key (result P)
          ((intermediate P inputs).filter fun kv => bucket nReduce kv.key = t.index) := by
        refine Multiset.bind_congr fun t ht => ?_
        rw [printed, reduceLoop_sort hP]
        exact reduceKeys_perm (fun _ _ _ hrun => hP.result_perm hrun)
          (h.readPairs_perm hP (hc.files t ht))
    _ = st.2.job.coordinator.reduceIndices.val.bind fun r => reduceKeys KeyValue.key (result P)
          ((intermediate P inputs).filter fun kv => bucket nReduce kv.key = r) := by
        rw [← hkeys, ← Multiset.coe_eq_coe.2 hc.all, ← Multiset.map_coe, Multiset.bind_map]
    _ = reduceKeys KeyValue.key (result P) (intermediate P inputs) :=
        bind_reduceKeys (bucket nReduce) fun kv hkv =>
          Coordinator.mem_reduceIndices.2 (h.bucket_mem hkv)

/-- **Distributed MapReduce computes the sequential result.**  All map tasks go out, are done once
each and reported in any order; then every reduce task is done once, in any order and with its files
in any order.  All of this succeeds, and what the output files hold, line by line, is what the
sequential program prints; no key is printed twice. -/
theorem distributed_eq_sequential (hP : P.Lawful) (hn : 1 ≤ nReduce) (inputs : List Input)
    (files : Files) :
    ∃ s₀, handOut inputs nReduce = some s₀ ∧
    ∀ mapTasks, mapTasks.Perm s₀.job.handed →
    ∃ files₁ s, run (finishMapTask P inputs) (files, s₀) mapTasks = some (files₁, s) ∧
    ∀ reduceTasks, Covers s.job.coordinator reduceTasks →
    ∃ files₂, run (processReduceTask P) files₁ reduceTasks = some files₂ ∧
    ∃ records : Task → List (GoString × GoString),
      (∀ t ∈ reduceTasks, files₂ (outFile t.index) = some ((records t).flatMap line)) ∧
      mrsequential P inputs files (outFile 0) = some ((sequential P inputs).flatMap line) ∧
      (reduceTasks.flatMap records).Perm (sequential P inputs) ∧
      (reduceTasks.flatMap fun t => linesOf ((records t).flatMap line)).Perm
        (linesOf ((sequential P inputs).flatMap line)) ∧
      (∀ t ∈ reduceTasks, ((records t).map Prod.fst).Nodup) ∧
      reduceTasks.Pairwise fun t t' =>
        ∀ key ∈ (records t).map Prod.fst, key ∉ (records t').map Prod.fst := by
  have hne : nReduce ≠ 0 := by omega
  obtain ⟨s₀, hs₀, hout⟩ := exists_handOut inputs nReduce
  refine ⟨s₀, hs₀, fun mapTasks hmap => ?_⟩
  obtain ⟨⟨files₁, s⟩, hrun, h⟩ := (hout.progress (P := P) files hmap).run hne
  refine ⟨files₁, s, hrun, fun reduceTasks hc => ?_⟩
  obtain ⟨files₂, hrun₂, hreduced⟩ := h.reduce hc
  have hperm := h.printed_perm hP hc
  refine ⟨files₂, hrun₂, printed P files₁, hreduced.out, ?_, hperm, ?_, fun t _ => nodup_keys hP _, ?_⟩
  · rw [mrsequential, Files.print_eq, Function.update_self]
  · simp only [linesOf_flatMap_line]
    rw [← List.flatMap_assoc]
    exact hperm.flatMap_right _
  · refine (List.pairwise_map.1 hc.nodup).imp_of_mem fun {t t'} ht ht' hindex key hkey hkey' => ?_
    exact hindex ((h.bucket_eq hP (hc.files t ht) hkey).symm.trans
      (h.bucket_eq hP (hc.files t' ht') hkey'))

/-- Two map tasks that finish in the other order, and two reduce tasks. -/
theorem distributed_eq_sequential_texts :
    wordCount.Lawful ∧ ∃ s₀ files₁ s reduceTasks files₂ records,
      handOut texts 2 = some s₀ ∧
      run (finishMapTask wordCount texts) (fun _ => none, s₀) s₀.job.handed.reverse =
        some (files₁, s) ∧
      Covers s.job.coordinator reduceTasks ∧
      run (processReduceTask wordCount) files₁ reduceTasks = some files₂ ∧
      (∀ t ∈ reduceTasks, files₂ (outFile t.index) = some (List.flatMap line (records t))) ∧
      (reduceTasks.flatMap records).Perm [([97], [51]), ([98], [49])] := by
  obtain ⟨s₀, hs₀, h⟩ := distributed_eq_sequential wordCount_lawful (show (1 : ℤ) ≤ 2 by decide) texts
    fun _ => none
  obtain ⟨files₁, s, hmap, h⟩ := h _ s₀.job.handed.reverse_perm
  have hc := s.job.coordinator.covers_keys
  obtain ⟨files₂, hreduce, records, hfiles, -, hperm, -⟩ := h _ hc
  exact ⟨wordCount_lawful, s₀, files₁, s, _, files₂, records, hs₀, hmap, hc, hreduce, hfiles,
    sequential_texts ▸ hperm⟩

end RaftLabs.MapReduce
