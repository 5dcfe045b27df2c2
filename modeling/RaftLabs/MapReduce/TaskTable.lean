import RaftLabs.MapReduce.Coordinator

/-!
# The task tables are consistent

Both tables are pools, so that their consistency is kept by the operations of a pool; what is left is
that every operation of the coordinator is one of them, used as it must be: a new reduce task is not
in the table yet, and a completed or timed out one has a transaction.  `Done` is stable because
reduce tasks are created by completions of map tasks only, and none of these is accepted any more
once all map tasks are completed.
-/

namespace RaftLabs.MapReduce

open Lib

/-- The indices of `n` map tasks. -/
def mapIndices (n : ℕ) : Finset ℤ := (Finset.range n).map Nat.castEmbedding

@[simp] lemma mem_mapIndices {n i : ℕ} : (i : ℤ) ∈ mapIndices n ↔ i < n := by
  simp [mapIndices]

@[simp] lemma card_mapIndices (n : ℕ) : (mapIndices n).card = n := by
  simp [mapIndices]

lemma mapIndices_succ (n : ℕ) : mapIndices (n + 1) = insert (n : ℤ) (mapIndices n) := by
  rw [mapIndices, Finset.range_add_one, Finset.map_insert]
  rfl

namespace Coordinator

variable {c c' : Coordinator} {err : Option Err} {idx : ℤ} {filename : GoString}

/-- The indices of the reduce tasks. -/
def reduceIndices (c : Coordinator) : Finset ℤ := c.reduceTasks.keys.toFinset

@[simp] lemma mem_reduceIndices {i : ℤ} : i ∈ c.reduceIndices ↔ i ∈ c.reduceTasks := by
  rw [reduceIndices, List.mem_toFinset, AList.mem_keys]

/-- **The tables of a coordinator with `n` map tasks are consistent.** -/
structure Tables (c : Coordinator) (n : ℕ) : Prop where
  length : c.mapTasks.length = n
  isMap : ∀ t ∈ c.mapTasks, t.isMapTask = true ∧ ∃ i : ℕ, t.index = i
  isReduce : ∀ i t, c.reduceTasks.lookup i = some t → t.isMapTask = false ∧ t.index = i
  maps : c.maps.Consistent (mapIndices n)
  reduces : c.reduces.Consistent c.reduceIndices

variable {n : ℕ}

lemma tables_make (files : List GoString) (nReduce : ℤ) :
    (make files nReduce).Tables files.length where
  length := by simp [make]
  isMap t ht := by
    obtain ⟨i, hi, rfl⟩ := List.mem_mapIdx.1 ht
    exact ⟨rfl, i, rfl⟩
  isReduce _ _ h := nomatch h
  maps := by
    dsimp only [make]
    generalize files.length = n
    induction n with
    | zero => exact Pool.consistent_empty
    | succ n ih =>
      rw [List.range_succ, List.foldl_concat, mapIndices_succ]
      exact ih.add (by simp)
  reduces := Pool.consistent_empty

/-- **What the operations of the coordinator keep.** -/
structure Advances (c : Coordinator) (n : ℕ) (c' : Coordinator) : Prop where
  tables : c'.Tables n
  mapTasks : c'.mapTasks = c.mapTasks
  maps : c.maps.Later c'.maps
  reduces : c.reduces.Later c'.reduces

lemma Tables.advances (h : c.Tables n) : c.Advances n c := ⟨h, rfl, .refl _, .refl _⟩

lemma Advances.trans {c'' : Coordinator} (h : c.Advances n c') (h' : c'.Advances n c'') :
    c.Advances n c'' :=
  ⟨h'.tables, h'.mapTasks.trans h.mapTasks, h.maps.trans h'.maps, h.reduces.trans h'.reduces⟩

/-! ### The files of a completed map task -/

lemma Tables.createReduceTask (h : c.Tables n) (idx : ℤ) :
    c.Advances n (c.createReduceTask idx) := by
  unfold Coordinator.createReduceTask
  split_ifs with hidx
  · exact h.advances
  · have hnew : idx ∉ c.reduceIndices := by simpa using hidx
    refine ⟨⟨h.length, h.isMap, fun i t ht => ?_, h.maps, ?_⟩, rfl, .refl _,
      h.reduces.later_add hnew⟩
    · by_cases hi : i = idx
      · subst hi
        rw [AList.lookup_insert] at ht
        cases ht
        exact ⟨rfl, rfl⟩
      · rw [AList.lookup_insert_ne hi] at ht
        exact h.isReduce i t ht
    have hset : reduceIndices { c with
        reduceTasks := c.reduceTasks.insert idx { isMapTask := false, filenames := [], index := idx }
        reduces := c.reduces.add idx } = insert idx c.reduceIndices := by
      ext i
      simp [AList.mem_insert]
    rw [hset]
    exact h.reduces.add hnew

lemma Tables.appendFile (h : c.Tables n) (idx : ℤ) (filename : GoString) :
    c.Advances n (c.appendFile idx filename) := by
  unfold Coordinator.appendFile
  split
  · exact h.advances
  · rename_i task htask
    refine ⟨⟨h.length, h.isMap, fun i t ht => ?_, h.maps, ?_⟩, rfl, .refl _, .refl _⟩
    · by_cases hi : i = idx
      · subst hi
        rw [AList.lookup_insert] at ht
        cases ht
        exact h.isReduce i task htask
      · rw [AList.lookup_insert_ne hi] at ht
        exact h.isReduce i t ht
    have hmem : idx ∈ c.reduceTasks := AList.lookup_isSome.1 (Option.isSome_of_eq_some htask)
    have hset : reduceIndices { c with
        reduceTasks := c.reduceTasks.insert idx
          { task with filenames := task.filenames ++ [filename] } } = c.reduceIndices := by
      ext i
      simp only [mem_reduceIndices, AList.mem_insert, or_iff_right_iff_imp]
      rintro rfl
      exact hmem
    rw [hset]
    exact h.reduces

lemma Tables.addFiles {filenames : List GoString} (h : c.Tables n)
    (hs : c.addFiles filenames = some (c', err)) : c.Advances n c' := by
  induction filenames generalizing c with
  | nil =>
    cases hs
    exact h.advances
  | cons filename filenames ih =>
    obtain ⟨part, -, hs⟩ := Option.bind_eq_some_iff.1 hs
    split at hs
    · cases hs
      exact h.advances
    · rename_i idx _
      have h₁ := h.createReduceTask idx
      have h₂ := h₁.trans (h₁.tables.appendFile idx filename)
      exact h₂.trans (ih h₂.tables hs)

/-! ### The operations -/

lemma Tables.getMapTask {now : ℕ} {task : Option Task} (h : c.Tables n)
    (hs : c.getMapTask now = some (c', task)) : c.Advances n c' := by
  obtain ⟨rfl, -, -⟩ | ⟨i, p, t, htake, -, rfl, -, -⟩ := getMapTask_cases hs
  · exact h.advances
  · exact ⟨⟨h.length, h.isMap, h.isReduce, h.maps.take htake, h.reduces⟩, rfl, h.maps.later_take htake, .refl _⟩

lemma Tables.getReduceTask {now : ℕ} {task : Option Task} (h : c.Tables n)
    (hs : c.getReduceTask now = some (c', task)) : c.Advances n c' := by
  obtain ⟨-, ⟨rfl, -⟩ | ⟨i, p, t, htake, -, rfl, -⟩⟩ := getReduceTask_cases hs
  · exact h.advances
  · exact ⟨⟨h.length, h.isMap, h.isReduce, h.maps, h.reduces.take htake⟩, rfl, .refl _,
      h.reduces.later_take htake⟩

lemma Tables.mapTaskDone {req : Reply} (h : c.Tables n)
    (hs : c.mapTaskDone req = some (c', err)) : c.Advances n c' := by
  obtain ⟨rfl, -⟩ | ⟨⟨txn, hl, -⟩, c₁, ⟨e, hc₁, rfl, -⟩ | ⟨hc₁, rfl, -⟩⟩ := mapTaskDone_cases hs
  · exact h.advances
  · exact h.addFiles hc₁
  · have h₁ := h.addFiles hc₁
    refine h₁.trans ⟨⟨h₁.tables.length, h₁.tables.isMap, h₁.tables.isReduce,
      h₁.tables.maps.complete ?_, h₁.tables.reduces⟩, rfl, Pool.Consistent.later_complete _ _, .refl _⟩
    obtain ⟨tasks, pool, rfl⟩ := addFiles_eq hc₁
    exact AList.lookup_isSome.1 (Option.isSome_of_eq_some hl)

lemma Tables.reduceTaskDone (h : c.Tables n) (req : Reply) :
    c.Advances n (c.reduceTaskDone req).1 := by
  obtain he | ⟨⟨txn, hl, -⟩, he⟩ := reduceTaskDone_cases c req
  · rw [he]
    exact h.advances
  · rw [he]
    refine ⟨⟨h.length, h.isMap, h.isReduce, h.maps, h.reduces.complete ?_⟩, rfl, .refl _,
      Pool.Consistent.later_complete _ _⟩
    exact AList.lookup_isSome.1 (Option.isSome_of_eq_some hl)

lemma Tables.inspectMapTasks {now : ℤ → ℕ} {order : List ℤ} (h : c.Tables n)
    (hs : c.inspectMapTasks now order = some c') : c.Advances n c' := by
  obtain ⟨p, hp, rfl⟩ := Option.map_eq_some_iff.1 hs
  obtain ⟨is, hnd, his, rfl⟩ := inspect_cases hp
  obtain ⟨hc, hl⟩ := h.maps.releaseAll hnd his
  exact ⟨⟨h.length, h.isMap, h.isReduce, hc, h.reduces⟩, rfl, hl, .refl _⟩

lemma Tables.inspectReduceTasks {now : ℤ → ℕ} {order : List ℤ} (h : c.Tables n)
    (hs : c.inspectReduceTasks now order = some c') : c.Advances n c' := by
  obtain ⟨p, hp, rfl⟩ := Option.map_eq_some_iff.1 hs
  obtain ⟨is, hnd, his, rfl⟩ := inspect_cases hp
  obtain ⟨hc, hl⟩ := h.reduces.releaseAll hnd his
  exact ⟨⟨h.length, h.isMap, h.isReduce, h.maps, hc⟩, rfl, .refl _, hl⟩

/-- All map tasks are completed, and no transaction of one is left. -/
lemma Tables.maps_completed (h : c.Tables n) (hdone : c.mapTasks.length ≤ c.maps.completedCnt) :
    (∀ i : ℕ, i < n → c.maps.status i = some .completed) ∧ ∀ i, c.maps.leases.lookup i = none := by
  rw [h.length] at hdone
  have hcard : (mapIndices n).card ≤ c.maps.completedCnt := by simpa using hdone
  refine ⟨fun i hi => h.maps.all_completed hcard i (mem_mapIndices.2 hi), fun i => ?_⟩
  exact AList.lookup_eq_none.2 (h.maps.leases_empty hcard i)

end Coordinator

namespace Job

variable {s s' : Job} {e : JobEvent} {n : ℕ}

/-- What holds in every run, with the tasks that have been handed out. -/
structure Inv (s : Job) (n : ℕ) : Prop where
  tables : s.coordinator.Tables n
  distinct : (s.handed.map Task.txnID).Nodup
  below : ∀ t ∈ s.handed, t.txnID < s.coordinator.nextTxnID
  late : ∀ t ∈ s.handed, t.isMapTask = false → n ≤ s.coordinator.maps.completedCnt

/-- A task goes out under the next transaction. -/
lemma Inv.hand (hi : s.Inv n) {c : Coordinator} {t : Task} (hc : s.coordinator.Advances n c)
    (hnext : c.nextTxnID = s.coordinator.nextTxnID + 1)
    (hlate : t.isMapTask = false → n ≤ s.coordinator.maps.completedCnt) :
    Inv (s.hand (c, some (Coordinator.cloneTask t s.coordinator.nextTxnID))) n where
  tables := hc.tables
  distinct := by
    show ((s.handed ++ [_]).map Task.txnID).Nodup
    rw [List.map_append, List.nodup_append]
    refine ⟨hi.distinct, by simp, fun a ha b hb => ?_⟩
    obtain ⟨t', ht', rfl⟩ := List.mem_map.1 ha
    rw [List.map_singleton, List.mem_singleton] at hb
    rw [hb]
    exact (hi.below t' ht').ne
  below t' ht' := by
    show t'.txnID < c.nextTxnID
    rw [hnext]
    rcases List.mem_append.1 ht' with ht' | ht'
    · exact (hi.below t' ht').trans (lt_add_one _)
    · rw [List.mem_singleton.1 ht']
      exact lt_add_one _
  late t' ht' hr := by
    refine le_trans ?_ hc.maps.count
    rcases List.mem_append.1 ht' with ht' | ht'
    · exact hi.late t' ht' hr
    · rw [List.mem_singleton.1 ht'] at hr
      exact hlate hr

/-- The coordinator changes, and nothing goes out. -/
lemma Inv.keep (hi : s.Inv n) {c : Coordinator} (hc : s.coordinator.Advances n c)
    (hnext : c.nextTxnID = s.coordinator.nextTxnID) : Inv { s with coordinator := c } n where
  tables := hc.tables
  distinct := hi.distinct
  below t ht := (hi.below t ht).trans_eq hnext.symm
  late t ht hr := (hi.late t ht hr).trans hc.maps.count

/-- **One step keeps the tables consistent.** -/
theorem Inv.step (hi : s.Inv n) (hs : s.step e = some s') : s'.Inv n := by
  cases e with
  | getMapTask now =>
    obtain ⟨⟨c, task⟩, hc, rfl⟩ := Option.map_eq_some_iff.1 hs
    have hadv := hi.tables.getMapTask hc
    obtain ⟨rfl, rfl, -⟩ | ⟨i, p, t, -, ht, rfl, rfl, -⟩ := Coordinator.getMapTask_cases hc
    · simpa [Job.hand] using hi
    · refine hi.hand hadv rfl fun hr => ?_
      rw [(hi.tables.isMap t ht).1] at hr
      cases hr
  | getReduceTask now =>
    obtain ⟨⟨c, task⟩, hc, rfl⟩ := Option.map_eq_some_iff.1 hs
    have hadv := hi.tables.getReduceTask hc
    obtain ⟨hdone, ⟨rfl, rfl⟩ | ⟨i, p, t, -, -, rfl, rfl⟩⟩ := Coordinator.getReduceTask_cases hc
    · simpa [Job.hand] using hi
    · exact hi.hand hadv rfl fun _ => hi.tables.length ▸ hdone
  | mapTaskDone req =>
    obtain ⟨⟨c, err⟩, hc, rfl⟩ := Option.map_eq_some_iff.1 hs
    refine hi.keep (hi.tables.mapTaskDone hc) ?_
    obtain ⟨rfl, -⟩ | ⟨-, c₁, ⟨err, hc₁, rfl, -⟩ | ⟨hc₁, rfl, -⟩⟩ :=
      Coordinator.mapTaskDone_cases hc
    · rfl
    · obtain ⟨tasks, pool, rfl⟩ := Coordinator.addFiles_eq hc₁
      rfl
    · obtain ⟨tasks, pool, rfl⟩ := Coordinator.addFiles_eq hc₁
      rfl
  | reduceTaskDone req =>
    cases hs
    refine hi.keep (hi.tables.reduceTaskDone req) ?_
    obtain he | ⟨-, he⟩ := Coordinator.reduceTaskDone_cases s.coordinator req <;> rw [he]
  | inspectMapTasks now order =>
    obtain ⟨c, hc, rfl⟩ := Option.map_eq_some_iff.1 hs
    refine hi.keep (hi.tables.inspectMapTasks hc) ?_
    obtain ⟨p, -, rfl⟩ := Option.map_eq_some_iff.1 hc
    rfl
  | inspectReduceTasks now order =>
    obtain ⟨c, hc, rfl⟩ := Option.map_eq_some_iff.1 hs
    refine hi.keep (hi.tables.inspectReduceTasks hc) ?_
    obtain ⟨p, -, rfl⟩ := Option.map_eq_some_iff.1 hc
    rfl

lemma inv_init (files : List GoString) (nReduce : ℤ) : (init files nReduce).Inv files.length where
  tables := Coordinator.tables_make files nReduce
  distinct := List.nodup_nil
  below _ h := absurd h List.not_mem_nil
  late _ h := absurd h List.not_mem_nil

/-- `Done` stays true as long as no reduce task is created. -/
lemma done_of_advances {c c' : Coordinator} (h : c.Advances n c')
    (htasks : c'.reduceTasks = c.reduceTasks) (hdone : c.done = true) : c'.done = true := by
  obtain ⟨hm, hr⟩ := of_decide_eq_true hdone
  refine decide_eq_true ⟨?_, ?_⟩
  · rw [h.mapTasks]
    exact hm.trans h.maps.count
  · rw [htasks]
    exact hr.trans h.reduces.count

/-- Once the map tasks are completed, no completion of one is accepted any more. -/
lemma done_step (ht : s.coordinator.Tables n) (hs : s.step e = some s')
    (hdone : s.coordinator.done = true) : s'.coordinator.done = true := by
  cases e with
  | getMapTask now =>
    obtain ⟨⟨c, task⟩, hc, rfl⟩ := Option.map_eq_some_iff.1 hs
    refine done_of_advances (ht.getMapTask hc) ?_ hdone
    obtain ⟨rfl, -, -⟩ | ⟨i, p, t, -, -, rfl, -⟩ := Coordinator.getMapTask_cases hc <;> rfl
  | getReduceTask now =>
    obtain ⟨⟨c, task⟩, hc, rfl⟩ := Option.map_eq_some_iff.1 hs
    refine done_of_advances (ht.getReduceTask hc) ?_ hdone
    obtain ⟨-, ⟨rfl, -⟩ | ⟨i, p, t, -, -, rfl, -⟩⟩ := Coordinator.getReduceTask_cases hc <;> rfl
  | mapTaskDone req =>
    obtain ⟨⟨c, err⟩, hc, rfl⟩ := Option.map_eq_some_iff.1 hs
    obtain ⟨rfl, -⟩ | ⟨⟨txn, hl, -⟩, -⟩ := Coordinator.mapTaskDone_cases hc
    · exact hdone
    · rw [(ht.maps_completed (of_decide_eq_true hdone).1).2] at hl
      cases hl
  | reduceTaskDone req =>
    cases hs
    refine done_of_advances (ht.reduceTaskDone req) ?_ hdone
    obtain he | ⟨-, he⟩ := Coordinator.reduceTaskDone_cases s.coordinator req <;> rw [he]
  | inspectMapTasks now order =>
    obtain ⟨c, hc, rfl⟩ := Option.map_eq_some_iff.1 hs
    refine done_of_advances (ht.inspectMapTasks hc) ?_ hdone
    obtain ⟨p, -, rfl⟩ := Option.map_eq_some_iff.1 hc
    rfl
  | inspectReduceTasks now order =>
    obtain ⟨c, hc, rfl⟩ := Option.map_eq_some_iff.1 hs
    refine done_of_advances (ht.inspectReduceTasks hc) ?_ hdone
    obtain ⟨p, -, rfl⟩ := Option.map_eq_some_iff.1 hc
    rfl

/-- **The task tables are consistent** in every run, whatever the workers report. -/
theorem task_tables_consistent {files : List GoString} {nReduce : ℤ}
    (h : Reachable step anyStep (init files nReduce) s) :
    (∀ i : ℕ, i < files.length → s.coordinator.maps.Placed i) ∧
    s.coordinator.maps.completedCnt =
      s.coordinator.maps.completedIn (mapIndices files.length) ∧
    (∀ i ∈ s.coordinator.reduceTasks, s.coordinator.reduces.Placed i) ∧
    s.coordinator.reduces.completedCnt =
      s.coordinator.reduces.completedIn s.coordinator.reduceIndices ∧
    (s.handed.map Task.txnID).Nodup ∧
    (∀ t ∈ s.handed, t.isMapTask = false →
      ∀ i : ℕ, i < files.length → s.coordinator.maps.status i = some .completed) ∧
    ∀ e s', s.step e = some s' → s.coordinator.done = true → s'.coordinator.done = true := by
  have hi : s.Inv files.length := Reachable.invariant (P := fun s => s.Inv files.length)
    (inv_init files nReduce) (fun _ _ _ _ hi _ hs => hi.step hs) h
  refine ⟨fun i hlt => hi.tables.maps.placed i (mem_mapIndices.2 hlt), hi.tables.maps.count,
    fun i hmem => hi.tables.reduces.placed i (Coordinator.mem_reduceIndices.2 hmem),
    hi.tables.reduces.count, hi.distinct, fun t ht hr => ?_, fun e s' => done_step hi.tables⟩
  exact (hi.tables.maps_completed ((hi.tables.length).trans_le (hi.late t ht hr))).1

/-- One file, whose map task is completed with one intermediate file; its reduce task goes out. -/
def oneFile : List JobEvent :=
  [.getMapTask 0, .mapTaskDone ⟨0, 0, [[109, 114, 45, 48, 45, 51]]⟩, .getReduceTask 0]

theorem task_tables_consistent_one_file : ∃ s, Reachable step anyStep (init [[97]] 10) s ∧
    s.handed.map Task.txnID = [0, 1] ∧ s.coordinator.maps.status 0 = some .completed ∧
    s.coordinator.reduces.Placed 3 := by
  have hrun : ((run step (init [[97]] 10) oneFile).map fun s =>
      decide (s.handed.map (fun t => (t.txnID, t.isMapTask)) = [(0, true), (1, false)] ∧
        3 ∈ s.coordinator.reduceTasks.keys)) = some true := by
    decide +kernel
  obtain ⟨s, hs, hd⟩ := Option.map_eq_some_iff.1 hrun
  obtain ⟨hhanded, hmem⟩ := of_decide_eq_true hd
  have hr : Reachable step anyStep (init [[97]] 10) s := Reachable.init.run hs
  obtain ⟨-, -, hplaced, -, -, hlate, -⟩ := task_tables_consistent hr
  obtain ⟨t, ht, he⟩ : ∃ t ∈ s.handed, (t.txnID, t.isMapTask) = ((1 : ℤ), false) :=
    List.mem_map.1 (hhanded ▸ by simp)
  refine ⟨s, hr, ?_, ?_, hplaced 3 (AList.mem_keys.2 hmem)⟩
  · have hfst := congrArg (List.map Prod.fst) hhanded
    rw [List.map_map] at hfst
    exact hfst
  · exact_mod_cast hlate t ht (Prod.mk.inj he).2 0 (by simp)

end Job

end RaftLabs.MapReduce
