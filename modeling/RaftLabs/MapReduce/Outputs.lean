import RaftLabs.MapReduce.Completion

/-!
# The files of the reduce tasks

As long as the workers report names of the form `mr-<i>-<r>` every name can be read.  One completion
of each map task is accepted, however often the task is handed out and whatever comes late, and no
reduce task goes out before that; so a reduce task that goes out has each of its files, once, and
keeps them (`map_outputs_exactly_once`).  The completions that have been accepted are a history
variable, and the files of the reduce tasks are a function of it.
-/

namespace RaftLabs.MapReduce

open Lib

/-! ### The accepted completions -/

/-- The worker reports distinct files of its own map task. -/
def Reply.WellNamed (req : Reply) : Prop :=
  req.filenames.Nodup ∧
    ∀ filename ∈ req.filenames, ∃ r : ℕ, r < 2 ^ 63 ∧ filename = mapFile req.index r

lemma Reply.wellNamed_map (index : ℤ) (txnID : TransactionID) (rs : List ℕ) (hnodup : rs.Nodup)
    (hlt : ∀ r ∈ rs, r < 2 ^ 63) :
    Reply.WellNamed ⟨index, txnID, rs.map fun r : ℕ => mapFile index r⟩ := by
  refine ⟨hnodup.map fun r r' h => ?_, fun filename hf => ?_⟩
  · exact_mod_cast mapFile_right_injective h
  · obtain ⟨r, hr, rfl⟩ := List.mem_map.1 hf
    exact ⟨r, hlt r hr, rfl⟩

/-- The names of a map task can be read, and tell the reduce task. -/
lemma Reply.WellNamed.reduceIndex_eq {req : Reply} (h : req.WellNamed) (hi : ∃ i : ℕ, req.index = i)
    {filename : GoString} (hf : filename ∈ req.filenames) {r : ℤ} :
    reduceIndex filename = some r ↔ filename = mapFile req.index r := by
  obtain ⟨r', hr', rfl⟩ := h.2 filename hf
  obtain ⟨i, hi⟩ := hi
  rw [hi, reduceIndex_mapFile hr', Option.some.injEq]
  exact ⟨fun he => by rw [he], mapFile_right_injective⟩

lemma Reply.WellNamed.readable {req : Reply} (h : req.WellNamed) (hi : ∃ i : ℕ, req.index = i) :
    ∀ filename ∈ req.filenames, (reduceIndex filename).isSome = true := by
  intro filename hf
  obtain ⟨r, -, hr⟩ := h.2 filename hf
  rw [(h.reduceIndex_eq hi hf).2 hr]
  rfl

/-- Map tasks have the numbers of input files. -/
lemma Job.Inv.exists_index {s : Job} {n : ℕ} (hi : s.Inv n) {idx : ℤ} {txn : Transaction}
    (h : s.coordinator.maps.leases.lookup idx = some txn) : ∃ i : ℕ, idx = i := by
  have hmem := hi.tables.maps.leased idx (AList.lookup_isSome.1 (Option.isSome_of_eq_some h))
  obtain ⟨i, -, rfl⟩ := Finset.mem_map.1 hmem
  exact ⟨i, rfl⟩

/-- A job, and as a history variable the completions of map tasks that have been accepted. -/
structure Journal where
  job : Job
  accepted : List Reply

/-- The completion that is accepted in this step. -/
def Coordinator.accepts (c : Coordinator) : JobEvent → List Reply
  | .mapTaskDone req =>
    match c.mapTaskDone req with
    | some (_, none) => [req]
    | _ => []
  | _ => []

namespace Journal

def init (files : List GoString) (nReduce : ℤ) : Journal := ⟨Job.init files nReduce, []⟩

def step (s : Journal) (e : JobEvent) : Option Journal :=
  (s.job.step e).map fun job => ⟨job, s.accepted ++ s.job.coordinator.accepts e⟩

/-- Every completion that is reported, whether it is late or not, has names of the right form. -/
def Reports (_ : Journal) : JobEvent → Prop
  | .mapTaskDone req => req.WellNamed
  | _ => True

/-- The files of reduce task `r` among those of these completions. -/
def filesFor (accepted : List Reply) (r : ℤ) : List GoString :=
  accepted.flatMap fun req => req.filenames.filter fun f => reduceIndex f = some r

variable {s s' : Journal} {e : JobEvent} {n : ℕ} {req : Reply} {t : Task}

/-- **What holds in every run**, of the reduce tasks and the accepted completions. -/
structure Inv (s : Journal) (n : ℕ) : Prop where
  job : s.job.Inv n
  named : ∀ req ∈ s.accepted, req.WellNamed
  once : (s.accepted.map Reply.index).Nodup
  completed : ∀ req ∈ s.accepted, s.job.coordinator.maps.status req.index = some .completed
  count : s.job.coordinator.maps.completedCnt = s.accepted.length
  files : ∀ r, s.job.coordinator.filesOf r = filesFor s.accepted r
  tasks : ∀ r, r ∈ s.job.coordinator.reduceTasks ↔
    ∃ req ∈ s.accepted, ∃ filename ∈ req.filenames, reduceIndex filename = some r
  handed : ∀ t ∈ s.job.handed, t.isMapTask = false →
    t.index ∈ s.job.coordinator.reduceTasks ∧ t.filenames = s.job.coordinator.filesOf t.index

lemma inv_init (files : List GoString) (nReduce : ℤ) : (init files nReduce).Inv files.length where
  job := Job.inv_init files nReduce
  named _ h := absurd h List.not_mem_nil
  once := List.nodup_nil
  completed _ h := absurd h List.not_mem_nil
  count := by
    show ((List.range files.length).foldl (fun p (i : ℕ) => p.add (i : ℤ)) Pool.empty).completedCnt
      = 0
    generalize files.length = n
    induction n with
    | zero => rfl
    | succ n ih => rw [List.range_succ, List.foldl_concat]; exact ih
  files _ := rfl
  tasks r := by simp [init, Job.init, Coordinator.make]
  handed _ h := absurd h List.not_mem_nil

/-- A step in which no completion is accepted: the reduce tasks stay as they are, and what goes out
is one of them. -/
structure Quiet (s s' : Journal) : Prop where
  accepted : s'.accepted = s.accepted
  reduceTasks : s'.job.coordinator.reduceTasks = s.job.coordinator.reduceTasks
  maps : s.job.coordinator.maps.Later s'.job.coordinator.maps
  count : s'.job.coordinator.maps.completedCnt = s.job.coordinator.maps.completedCnt
  handed : ∀ t ∈ s'.job.handed, t ∈ s.job.handed ∨ t.isMapTask = true ∨
    ∃ task, s.job.coordinator.reduceTasks.lookup t.index = some task ∧
      t.filenames = task.filenames

/-- **Inversion of a step**: an accepted completion, or a quiet step. -/
lemma step_cases (hi : s.job.Inv n) (hok : s.Reports e) (hs : s.step e = some s') :
    (∃ req c txn, req.WellNamed ∧ s.job.coordinator.maps.leases.lookup req.index = some txn ∧
      s.job.coordinator.addFiles req.filenames = some (c, none) ∧
      s' = ⟨⟨{ c with maps := c.maps.complete req.index }, s.job.handed⟩, s.accepted ++ [req]⟩) ∨
    s.Quiet s' := by
  obtain ⟨job, hjob, rfl⟩ := Option.map_eq_some_iff.1 hs
  cases e with
  | getMapTask now =>
    obtain ⟨⟨c, task⟩, hc, rfl⟩ := Option.map_eq_some_iff.1 hjob
    have hadv := hi.tables.getMapTask hc
    right
    obtain ⟨rfl, rfl, -⟩ | ⟨i, p, t, htake, ht, rfl, rfl, -⟩ := Coordinator.getMapTask_cases hc
    · exact ⟨List.append_nil _, rfl, hadv.maps, rfl,
        fun t ht => Or.inl (by simpa [Job.hand] using ht)⟩
    · refine ⟨List.append_nil _, rfl, hadv.maps, Pool.take_completedCnt htake, fun t' ht' => ?_⟩
      rcases List.mem_append.1 ht' with ht' | ht'
      · exact Or.inl ht'
      · rw [List.mem_singleton.1 ht']
        exact Or.inr (Or.inl (hi.tables.isMap t ht).1)
  | getReduceTask now =>
    obtain ⟨⟨c, task⟩, hc, rfl⟩ := Option.map_eq_some_iff.1 hjob
    have hadv := hi.tables.getReduceTask hc
    right
    obtain ⟨-, ⟨rfl, rfl⟩ | ⟨i, p, t, -, ht, rfl, rfl⟩⟩ := Coordinator.getReduceTask_cases hc
    · exact ⟨List.append_nil _, rfl, hadv.maps, rfl,
        fun t ht => Or.inl (by simpa [Job.hand] using ht)⟩
    · refine ⟨List.append_nil _, rfl, hadv.maps, rfl, fun t' ht' => ?_⟩
      rcases List.mem_append.1 ht' with ht' | ht'
      · exact Or.inl ht'
      · rw [List.mem_singleton.1 ht']
        refine Or.inr (Or.inr ⟨t, ?_, rfl⟩)
        show s.job.coordinator.reduceTasks.lookup t.index = some t
        rw [(hi.tables.isReduce i t ht).2, ht]
  | mapTaskDone req =>
    obtain ⟨⟨c, err⟩, hc, rfl⟩ := Option.map_eq_some_iff.1 hjob
    obtain ⟨rfl, rfl⟩ | ⟨⟨txn, hl, htxn⟩, c₁, ⟨e, hc₁, rfl, rfl⟩ | ⟨hc₁, rfl, rfl⟩⟩ :=
      Coordinator.mapTaskDone_cases hc
    · exact Or.inr ⟨by simp [Coordinator.accepts, hc], rfl, .refl _, rfl, fun t ht => Or.inl ht⟩
    · -- all names can be read
      have hcurrent : (s.job.coordinator.maps.leases.lookup req.index).map Transaction.txnID =
          some req.txnID := by
        rw [hl, Option.map_some, htxn]
      obtain ⟨c', hc'⟩ := Coordinator.mapTaskDone_readable hcurrent
        (hok.readable (hi.exists_index hl))
      rw [hc] at hc'
      cases hc'
    · exact Or.inl ⟨req, c₁, txn, hok, hl, hc₁, by simp [Coordinator.accepts, hc]⟩
  | reduceTaskDone req =>
    cases hjob
    right
    have hadv := hi.tables.reduceTaskDone req
    obtain he | ⟨-, he⟩ := Coordinator.reduceTaskDone_cases s.job.coordinator req
    · rw [he] at hadv ⊢
      exact ⟨List.append_nil _, rfl, hadv.maps, rfl, fun t ht => Or.inl ht⟩
    · rw [he] at hadv ⊢
      exact ⟨List.append_nil _, rfl, hadv.maps, rfl, fun t ht => Or.inl ht⟩
  | inspectMapTasks now order =>
    obtain ⟨c, hc, rfl⟩ := Option.map_eq_some_iff.1 hjob
    have hadv := hi.tables.inspectMapTasks hc
    obtain ⟨p, hp, rfl⟩ := Option.map_eq_some_iff.1 hc
    obtain ⟨is, -, -, rfl⟩ := Coordinator.inspect_cases hp
    exact Or.inr ⟨List.append_nil _, rfl, hadv.maps, Pool.releaseAll_completedCnt _ _,
      fun t ht => Or.inl ht⟩
  | inspectReduceTasks now order =>
    obtain ⟨c, hc, rfl⟩ := Option.map_eq_some_iff.1 hjob
    have hadv := hi.tables.inspectReduceTasks hc
    obtain ⟨p, hp, rfl⟩ := Option.map_eq_some_iff.1 hc
    exact Or.inr ⟨List.append_nil _, rfl, hadv.maps, rfl, fun t ht => Or.inl ht⟩

lemma filesFor_concat (accepted : List Reply) (req : Reply) (r : ℤ) :
    filesFor (accepted ++ [req]) r =
      filesFor accepted r ++ req.filenames.filter fun f => reduceIndex f = some r := by
  simp [filesFor]

/-- A completion is accepted. -/
lemma Inv.accept (hi : s.Inv n) (hjob : s'.job.Inv n) (hnamed : req.WellNamed) {txn : Transaction}
    (hl : s.job.coordinator.maps.leases.lookup req.index = some txn) {c : Coordinator}
    (hc : s.job.coordinator.addFiles req.filenames = some (c, none))
    (hs' : s' = ⟨⟨{ c with maps := c.maps.complete req.index }, s.job.handed⟩,
      s.accepted ++ [req]⟩) : s'.Inv n := by
  obtain ⟨c', hrun, hfiles, htasks⟩ := s.job.coordinator.addFiles_readable
    (hnamed.readable (hi.job.exists_index hl))
  obtain rfl : c = c' := by
    have hrun' := hrun []
    rw [List.append_nil, hc] at hrun'
    cases hrun'
    rfl
  have hmaps : c.maps = s.job.coordinator.maps := by
    obtain ⟨tasks, pool, rfl⟩ := Coordinator.addFiles_eq hc
    rfl
  have hleased := hi.job.tables.maps.placed_of_mem_leases
    (AList.lookup_isSome.1 (Option.isSome_of_eq_some hl))
  have hnew : ∀ req' ∈ s.accepted, req'.index ≠ req.index := by
    intro req' hreq' he
    have hstatus := hi.completed req' hreq'
    rw [he, hleased.2.2] at hstatus
    cases hstatus
  subst hs'
  refine ⟨hjob, ?_, ?_, ?_, ?_, fun r => ?_, fun r => ?_, fun t ht hr => ?_⟩
  · rw [List.forall_mem_append]
    exact ⟨hi.named, by simpa using hnamed⟩
  · rw [List.map_append, List.nodup_append]
    refine ⟨hi.once, by simp, fun a ha b hb => ?_⟩
    obtain ⟨req', hreq', rfl⟩ := List.mem_map.1 ha
    rw [List.map_singleton, List.mem_singleton] at hb
    rw [hb]
    exact hnew req' hreq'
  · show ∀ req' ∈ s.accepted ++ [req], (c.maps.complete req.index).status req'.index = _
    intro req' hreq'
    rw [hmaps]
    rcases List.mem_append.1 hreq' with hreq' | hreq'
    · exact (Function.update_of_ne (hnew req' hreq') _ _).trans (hi.completed req' hreq')
    · rw [List.mem_singleton.1 hreq']
      exact Function.update_self _ _ _
  · show c.maps.completedCnt + 1 = (s.accepted ++ [req]).length
    rw [hmaps, hi.count, List.length_append]
    rfl
  · exact (hfiles r).trans (by rw [hi.files, filesFor_concat])
  · refine (htasks r).trans ?_
    rw [hi.tasks]
    simp only [List.mem_append, List.mem_singleton]
    constructor
    · rintro (⟨req', hreq', h⟩ | h)
      · exact ⟨req', Or.inl hreq', h⟩
      · exact ⟨req, Or.inr rfl, h⟩
    · rintro ⟨req', hreq' | rfl, h⟩
      · exact Or.inl ⟨req', hreq', h⟩
      · exact Or.inr h
  · -- no completion is accepted any more when a reduce task is out
    have hdone := hi.job.late t ht hr
    rw [← hi.job.tables.length] at hdone
    rw [(hi.job.tables.maps_completed hdone).2] at hl
    cases hl

lemma Inv.quiet (hi : s.Inv n) (hjob : s'.job.Inv n) (hq : s.Quiet s') : s'.Inv n := by
  have hfiles : ∀ r, s'.job.coordinator.filesOf r = s.job.coordinator.filesOf r := by
    intro r
    unfold Coordinator.filesOf
    rw [hq.reduceTasks]
  refine ⟨hjob, ?_, ?_, ?_, ?_, fun r => ?_, fun r => ?_, fun t ht hr => ?_⟩
  · rw [hq.accepted]
    exact hi.named
  · rw [hq.accepted]
    exact hi.once
  · rw [hq.accepted]
    exact fun req hreq => hq.maps.completed _ (hi.completed req hreq)
  · rw [hq.accepted, hq.count]
    exact hi.count
  · rw [hq.accepted, hfiles]
    exact hi.files r
  · rw [hq.accepted, hq.reduceTasks]
    exact hi.tasks r
  · rw [hq.reduceTasks, hfiles]
    obtain ht | ht | ⟨task, htask, he⟩ := hq.handed t ht
    · exact hi.handed t ht hr
    · rw [ht] at hr
      cases hr
    · refine ⟨AList.lookup_isSome.1 (Option.isSome_of_eq_some htask), ?_⟩
      rw [Coordinator.filesOf, htask, he]
      rfl

/-- **One step keeps the files in line with the accepted completions.** -/
theorem Inv.step (hi : s.Inv n) (hok : s.Reports e) (hs : s.step e = some s') : s'.Inv n := by
  have hjob : s'.job.Inv n := by
    obtain ⟨job, hjob, rfl⟩ := Option.map_eq_some_iff.1 hs
    exact hi.job.step hjob
  obtain ⟨req, c, txn, hnamed, hl, hc, hs'⟩ | hq := step_cases hi.job hok hs
  · exact hi.accept hjob hnamed hl hc hs'
  · exact hi.quiet hjob hq

lemma inv_of_reachable {files : List GoString} {nReduce : ℤ}
    (h : Reachable step Reports (init files nReduce) s) : s.Inv files.length :=
  Reachable.invariant (P := fun s => s.Inv files.length) (inv_init files nReduce)
    (fun _ _ _ _ hi hok hs => hi.step hok hs) h

/-- A completion under the current transaction is accepted, and no other transaction is touched. -/
lemma Inv.exists_accept (hi : s.Inv n) (hnamed : req.WellNamed)
    (hcurrent : (s.job.coordinator.maps.leases.lookup req.index).map Transaction.txnID =
      some req.txnID) :
    ∃ s', s.step (.mapTaskDone req) = some s' ∧ s'.accepted = s.accepted ++ [req] ∧
      ∀ i ≠ req.index, s'.job.coordinator.maps.leases.lookup i =
        s.job.coordinator.maps.leases.lookup i := by
  obtain ⟨txn, hl, -⟩ := Option.map_eq_some_iff.1 hcurrent
  obtain ⟨c, hc⟩ := Coordinator.mapTaskDone_readable hcurrent
    (hnamed.readable (hi.job.exists_index hl))
  refine ⟨⟨⟨c, s.job.handed⟩, s.accepted ++ [req]⟩, ?_, rfl, fun i hne => ?_⟩
  · simp [Journal.step, Job.step, Coordinator.accepts, hc]
  · obtain ⟨-, he⟩ | ⟨-, c₁, ⟨e, -, -, he⟩ | ⟨hc₁, rfl, -⟩⟩ := Coordinator.mapTaskDone_cases hc
    · cases he
    · cases he
    · obtain ⟨tasks, pool, rfl⟩ := Coordinator.addFiles_eq hc₁
      exact AList.lookup_erase_ne hne

/-! ### The files of a reduce task -/

lemma Inv.mem_mapIndices (hi : s.Inv n) (hreq : req ∈ s.accepted) : req.index ∈ mapIndices n :=
  hi.job.tables.maps.known _ _ (hi.completed req hreq)

lemma Inv.exists_index (hi : s.Inv n) (hreq : req ∈ s.accepted) : ∃ i : ℕ, req.index = i := by
  obtain ⟨i, -, he⟩ := Finset.mem_map.1 (hi.mem_mapIndices hreq)
  exact ⟨i, he.symm⟩

/-- When all map tasks are completed, one completion of each has been accepted. -/
lemma Inv.accepted_perm (hi : s.Inv n) (hdone : n ≤ s.job.coordinator.maps.completedCnt) :
    (s.accepted.map Reply.index).Perm ((List.range n).map fun i : ℕ => (i : ℤ)) := by
  have hsub : (s.accepted.map Reply.index).toFinset ⊆ mapIndices n := by
    intro i hmem
    obtain ⟨req, hreq, rfl⟩ := List.mem_map.1 (List.mem_toFinset.1 hmem)
    exact hi.mem_mapIndices hreq
  have hcard : (mapIndices n).card ≤ (s.accepted.map Reply.index).toFinset.card := by
    rw [card_mapIndices, List.toFinset_card_of_nodup hi.once, List.length_map, ← hi.count]
    exact hdone
  have hset := Finset.eq_of_subset_of_card_le hsub hcard
  have hrange : ((List.range n).map fun i : ℕ => (i : ℤ)).Nodup :=
    List.nodup_range.map fun _ _ h => by exact_mod_cast h
  refine (List.perm_ext_iff_of_nodup hi.once hrange).2 fun i => ?_
  rw [← List.mem_toFinset, hset]
  simp [mapIndices]

lemma Inv.mem_filesFor (hi : s.Inv n) {r : ℤ} {filename : GoString} :
    filename ∈ filesFor s.accepted r ↔
      ∃ req ∈ s.accepted, filename ∈ req.filenames ∧ filename = mapFile req.index r := by
  unfold filesFor
  rw [List.mem_flatMap]
  refine exists_congr fun req => and_congr_right fun hreq => ?_
  rw [List.mem_filter, decide_eq_true_iff]
  refine and_congr_right fun hf => ?_
  exact (hi.named req hreq).reduceIndex_eq (hi.exists_index hreq) hf

/-- The files of different map tasks have different names. -/
lemma Inv.filesFor_nodup (hi : s.Inv n) (r : ℤ) : (filesFor s.accepted r).Nodup := by
  unfold filesFor
  rw [List.nodup_flatMap]
  refine ⟨fun req hreq => (hi.named req hreq).1.filter _, ?_⟩
  refine (List.pairwise_map.1 hi.once).imp_of_mem fun {req req'} hreq hreq' hne => ?_
  intro filename hf hf'
  obtain ⟨k, -, hk⟩ := (hi.named req hreq).2 filename (List.mem_filter.1 hf).1
  obtain ⟨k', -, hk'⟩ := (hi.named req' hreq').2 filename (List.mem_filter.1 hf').1
  obtain ⟨i, he⟩ := hi.exists_index hreq
  obtain ⟨i', he'⟩ := hi.exists_index hreq'
  rw [he] at hk hne
  rw [he'] at hk' hne
  exact hne (by rw [mapFile_injective (hk.symm.trans hk')])

/-- **Each map output reaches its reduce task exactly once.**  When a reduce task has gone out, one
completion of every map task has been accepted, the files of the task are those that these
completions have reported for it, each once, and the coordinator still has the same ones; and there
is one reduce task for every number that some accepted completion has reported a file for. -/
theorem map_outputs_exactly_once {files : List GoString} {nReduce : ℤ}
    (h : Reachable step Reports (init files nReduce) s) :
    (∀ t ∈ s.job.handed, t.isMapTask = false →
      (s.accepted.map Reply.index).Perm ((List.range files.length).map fun i : ℕ => (i : ℤ)) ∧
      t.filenames.Nodup ∧
      (∀ filename, filename ∈ t.filenames ↔ ∃ req ∈ s.accepted,
        filename ∈ req.filenames ∧ filename = mapFile req.index t.index) ∧
      ∃ task, s.job.coordinator.reduceTasks.lookup t.index = some task ∧
        task.filenames = t.filenames) ∧
    ∀ r : ℤ, (∃ req ∈ s.accepted, mapFile req.index r ∈ req.filenames) →
      s.job.coordinator.reduces.Placed r ∧
      ∃ task, s.job.coordinator.reduceTasks.lookup r = some task ∧ task.index = r ∧
        ∀ r' task', s.job.coordinator.reduceTasks.lookup r' = some task' → task'.index = r →
          r' = r := by
  have hi := inv_of_reachable h
  constructor
  · intro t ht hr
    obtain ⟨hmem, hfiles⟩ := hi.handed t ht hr
    obtain ⟨task, htask⟩ := Option.isSome_iff_exists.1 (AList.lookup_isSome.2 hmem)
    have hfor := hfiles.trans (hi.files t.index)
    refine ⟨hi.accepted_perm (hi.job.late t ht hr), ?_, fun filename => ?_, task, htask, ?_⟩
    · rw [hfor]
      exact hi.filesFor_nodup t.index
    · rw [hfor]
      exact hi.mem_filesFor
    · rw [hfiles, Coordinator.filesOf, htask]
      rfl
  · rintro r ⟨req, hreq, hf⟩
    have hindex := ((hi.named req hreq).reduceIndex_eq (hi.exists_index hreq) hf).2 rfl
    have hmem : r ∈ s.job.coordinator.reduceTasks :=
      (hi.tasks r).2 ⟨req, hreq, _, hf, hindex⟩
    obtain ⟨task, htask⟩ := Option.isSome_iff_exists.1 (AList.lookup_isSome.2 hmem)
    refine ⟨hi.job.tables.reduces.placed r (Coordinator.mem_reduceIndices.2 hmem), task, htask,
      (hi.job.tables.isReduce r task htask).2, fun r' task' htask' he => ?_⟩
    exact (hi.job.tables.isReduce r' task' htask').2.symm.trans he

/-- Two files.  The first map task times out and is done again; its first completion comes late, and
its second one twice. -/
def lateCompletion : List JobEvent :=
  [.getMapTask 0, .inspectMapTasks (fun _ => 11 * 10 ^ 9) [0], .getMapTask 0, .getMapTask 0,
    .mapTaskDone ⟨0, 0, [mapFile 0 3]⟩, .mapTaskDone ⟨0, 2, [mapFile 0 3]⟩,
    .mapTaskDone ⟨0, 2, [mapFile 0 3]⟩, .mapTaskDone ⟨1, 1, [mapFile 1 5, mapFile 1 3]⟩,
    .getReduceTask 0]

lemma reports_lateCompletion : ∀ e ∈ lateCompletion, ∀ s : Journal, s.Reports e := by
  have h3 : ∀ (i : ℤ) (txn : TransactionID), Reply.WellNamed ⟨i, txn, [mapFile i 3]⟩ := fun i txn =>
    Reply.wellNamed_map i txn [3] (by decide) (by decide)
  have h53 : Reply.WellNamed ⟨1, 1, [mapFile 1 5, mapFile 1 3]⟩ :=
    Reply.wellNamed_map 1 1 [5, 3] (by decide) (by decide)
  unfold lateCompletion
  simp only [List.forall_mem_cons]
  exact ⟨fun _ => trivial, fun _ => trivial, fun _ => trivial, fun _ => trivial, fun _ => h3 _ _,
    fun _ => h3 _ _, fun _ => h3 _ _, fun _ => h53, fun _ => trivial,
    fun _ h => absurd h List.not_mem_nil⟩

theorem map_outputs_exactly_once_late : ∃ s, Reachable step Reports (init [[97], [98]] 10) s ∧
    s.accepted.map (fun req => (req.index, req.txnID)) = [(0, 2), (1, 1)] ∧
    ∃ t ∈ s.job.handed, t.isMapTask = false ∧ t.index = 3 ∧ t.filenames.Nodup ∧
      ∀ filename, filename ∈ t.filenames ↔ ∃ req ∈ s.accepted,
        filename ∈ req.filenames ∧ filename = mapFile req.index 3 := by
  have hrun : ((run step (init [[97], [98]] 10) lateCompletion).map fun s =>
      decide (s.accepted.map (fun req => (req.index, req.txnID)) = [(0, 2), (1, 1)] ∧
        ∃ t ∈ s.job.handed, t.isMapTask = false ∧ t.index = 3)) = some true := by
    decide +kernel
  obtain ⟨s, hs, hd⟩ := Option.map_eq_some_iff.1 hrun
  obtain ⟨haccepted, t, ht, hr, hindex⟩ := of_decide_eq_true hd
  have hreach : Reachable step Reports (init [[97], [98]] 10) s :=
    Reachable.init.run_of_forall reports_lateCompletion hs
  obtain ⟨-, hnodup, hfiles, -⟩ := (map_outputs_exactly_once hreach).1 t ht hr
  exact ⟨s, hreach, haccepted, t, ht, hr, hindex, hnodup, hindex ▸ hfiles⟩

end Journal

end RaftLabs.MapReduce
