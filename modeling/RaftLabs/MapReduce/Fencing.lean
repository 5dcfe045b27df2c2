import RaftLabs.MapReduce.TaskTable
import RaftLabs.MapReduce.Worker

/-!
# Stale workers

The coordinator turns away the report of a worker whose transaction has timed out, but such a worker
goes on writing to the files with the final names.  The files of a completed task never change as
long as no worker creates or writes a file for a task that is completed (`completed_output_fixed`):
the names tell the tasks apart.  Nothing in the code sees to that.  It would be enough to write only
under a transaction that the coordinator still has in its table (`fenced_output_fixed`), since a
completed task has none.  As it is, a worker that was only slow truncates the output of a task that
another worker has completed.
-/

namespace RaftLabs.MapReduce

open Lib

/-! ### Names -/

lemma formatInt_natCast (n : ℕ) : Decimal.formatInt n = Decimal.formatNat n := rfl

lemma dash_notMem (n : ℕ) : (45 : UInt8) ∉ Decimal.formatNat n := fun h =>
  absurd (Decimal.isDigit_of_mem_formatNat h) (by decide)

/-- The files of different map tasks have different names. -/
lemma mapFile_injective {i r i' r' : ℕ} (h : mapFile i r = mapFile i' r') : i = i' := by
  unfold mapFile at h
  rw [List.append_assoc, List.append_assoc] at h
  have h := List.append_cancel_left h
  rw [formatInt_natCast, formatInt_natCast, formatInt_natCast, formatInt_natCast] at h
  obtain ⟨h, -, -⟩ :=
    (List.append_cons_inj_of_notMem (dash_notMem i) (dash_notMem r)).1 h
  exact Decimal.formatNat_injective h

lemma outFile_injective {i j : ℤ} (h : outFile i = outFile j) : i = j :=
  Decimal.formatInt_injective (List.append_cancel_left h)

/-- Where one has a digit, the other has a letter. -/
lemma mapFile_ne_outFile (i r : ℕ) (j : ℤ) : mapFile i r ≠ outFile j := by
  intro h
  unfold mapFile outFile at h
  rw [List.append_assoc, show ([109, 114, 45, 111, 117, 116, 45] : GoString) =
    [109, 114, 45] ++ [111, 117, 116, 45] from rfl, List.append_assoc] at h
  have h := List.append_cancel_left h
  rw [formatInt_natCast] at h
  have hdig : ∀ b ∈ Decimal.formatNat i, Decimal.IsDigit b := fun _ =>
    Decimal.isDigit_of_mem_formatNat
  have hne := Decimal.formatNat_ne_nil i
  revert h hdig hne
  generalize Decimal.formatNat i = s
  intro h hdig hne
  cases s with
  | nil => exact hne rfl
  | cons b s =>
    have hb : b = 111 := (List.cons.inj h).1
    exact absurd (hb ▸ hdig b List.mem_cons_self) (by decide)

/-! ### What a worker writes to -/

namespace Worker

/-- The files that a worker may create or write at its place in the code. -/
def Writes (name : GoString) : Worker → Prop
  | mapping task _ _ => ∃ r : ℕ, name = mapFile task.index r
  | reduceSorted task _ => name = outFile task.index
  | reducing task _ _ => name = outFile task.index
  | _ => False

/-- Map tasks have the numbers of input files. -/
def Sane : Worker → Prop
  | mapReading task _ => ∃ i : ℕ, task.index = i
  | mapping task _ _ => ∃ i : ℕ, task.index = i
  | _ => True

/-- The transaction of the worker is in the table of the coordinator. -/
def Current (c : Coordinator) : Worker → Prop
  | mapping task _ _ =>
    (c.maps.leases.lookup task.index).map Transaction.txnID = some task.txnID
  | reduceSorted task _ =>
    (c.reduces.leases.lookup task.index).map Transaction.txnID = some task.txnID
  | reducing task _ _ =>
    (c.reduces.leases.lookup task.index).map Transaction.txnID = some task.txnID
  | _ => True

/-- The task that the worker writes for is not completed. -/
def Unfinished (c : Coordinator) : Worker → Prop
  | mapping task _ _ => c.maps.status task.index ≠ some .completed
  | reduceSorted task _ => c.reduces.status task.index ≠ some .completed
  | reducing task _ _ => c.reduces.status task.index ≠ some .completed
  | _ => True

instance (c : Coordinator) : DecidablePred (Unfinished c) := fun w => by
  cases w <;> dsimp only [Unfinished] <;> infer_instance

variable {P : Program} {w w' : Worker} {name : GoString} {files : Files} {c : Coordinator} {n : ℕ}

/-- A completed task has no transaction. -/
lemma Current.unfinished (ht : c.Tables n) (hc : w.Current c) : w.Unfinished c := by
  cases w with
  | mapping task kva files => exact ht.maps.not_completed_of_lookup hc
  | reduceSorted task lines => exact ht.reduces.not_completed_of_lookup hc
  | reducing task lines offset => exact ht.reduces.not_completed_of_lookup hc
  | _ => trivial

lemma writes_of_create (h : w.create = some (name, w')) : w.Writes name ∧ (w.Sane → w'.Sane) := by
  unfold create at h
  split at h
  · obtain ⟨name', hn, h⟩ := Option.bind_eq_some_iff.1 h
    split_ifs at h
    cases h
    obtain ⟨r, -, hr⟩ := exists_of_iFileName hn
    exact ⟨⟨r, hr⟩, id⟩
  · cases h
    exact ⟨rfl, fun _ => trivial⟩
  · cases h

lemma writes_of_write {offset : ℕ} {bytes : GoString}
    (h : w.write P = some (name, offset, bytes, w')) : w.Writes name ∧ (w.Sane → w'.Sane) := by
  unfold write at h
  split at h
  · obtain ⟨name', hn, h⟩ := Option.bind_eq_some_iff.1 h
    obtain ⟨offset', -, h⟩ := Option.map_eq_some_iff.1 h
    cases h
    obtain ⟨r, -, hr⟩ := exists_of_iFileName hn
    exact ⟨⟨r, hr⟩, id⟩
  · cases h
    exact ⟨rfl, fun _ => trivial⟩
  · cases h

lemma sane_read {size : ℕ} (h : w.read P files size = some w') (hw : w.Sane) : w'.Sane := by
  unfold read at h
  split at h
  · obtain ⟨filename, -, rfl⟩ := Option.map_eq_some_iff.1 h
    split
    · trivial
    · split_ifs
      · exact hw
      · exact hw
  · split at h
    · cases h
      trivial
    · split_ifs at h <;> cases h <;> trivial
  · cases h
    trivial
  · cases h

lemma sane_close (h : w.close = some w') : w'.Sane := by
  unfold close at h
  split at h <;> cases h <;> trivial

/-- **A worker whose task is not completed keeps off the files of completed tasks.** -/
lemma Writes.ne (h : w.Writes name) (hw : w.Sane) (hc : w.Unfinished c) :
    (∀ i r : ℕ, c.maps.status i = some .completed → name ≠ mapFile i r) ∧
    ∀ i : ℤ, c.reduces.status i = some .completed → name ≠ outFile i := by
  have hreduce : ∀ {task : Task}, name = outFile task.index →
      c.reduces.status task.index ≠ some .completed →
      (∀ i r : ℕ, c.maps.status i = some .completed → name ≠ mapFile i r) ∧
      ∀ i : ℤ, c.reduces.status i = some .completed → name ≠ outFile i := by
    rintro task rfl hnot
    refine ⟨fun i r _ => (mapFile_ne_outFile i r _).symm, fun i hs he => ?_⟩
    rw [outFile_injective he] at hnot
    exact hnot hs
  match w, h, hw, hc with
  | mapping task _ _, ⟨r, hr⟩, ⟨k, hk⟩, hnot =>
    subst hr
    change c.maps.status task.index ≠ some .completed at hnot
    rw [hk] at hnot ⊢
    refine ⟨fun i r' hs he => ?_, fun i _ => mapFile_ne_outFile k r i⟩
    rw [mapFile_injective he] at hnot
    exact hnot hs
  | reduceSorted task _, h, _, hnot => exact hreduce h hnot
  | reducing task _ _, h, _, hnot => exact hreduce h hnot

end Worker

/-! ### Runs -/

namespace System

variable {P : Program} {s s' : System} {e : Event} {n : ℕ}

/-- Files are created and written for tasks that are not completed. -/
def Unfinished (s : System) : Event → Prop
  | .create w => (s.workers w).Unfinished s.coordinator
  | .write w => (s.workers w).Unfinished s.coordinator
  | _ => True

instance (s : System) : DecidablePred s.Unfinished := fun e => by
  cases e <;> dsimp only [Unfinished] <;> infer_instance

/-- Files are created and written under a current transaction. -/
def Fenced (s : System) : Event → Prop
  | .create w => (s.workers w).Current s.coordinator
  | .write w => (s.workers w).Current s.coordinator
  | _ => True

structure Inv (s : System) (n : ℕ) : Prop where
  tables : s.coordinator.Tables n
  sane : ∀ w, (s.workers w).Sane

/-- A worker moves on, and with it perhaps the coordinator and the files. -/
lemma Inv.setWorker (hi : s.Inv n) {c : Coordinator} (hc : c.Tables n) (files : Files) (w : ℕ)
    {worker : Worker} (hw : worker.Sane) :
    Inv (System.setWorker ⟨c, files, s.workers⟩ w worker) n := by
  refine ⟨hc, fun w' => ?_⟩
  show (Function.update s.workers w worker w').Sane
  by_cases h : w' = w
  · subst h
    rw [Function.update_self]
    exact hw
  · rw [Function.update_of_ne h]
    exact hi.sane w'

lemma sane_start {t : Task} (h : t.isMapTask = true → ∃ i : ℕ, t.index = i) :
    (Worker.start t).Sane := by
  unfold Worker.start
  split_ifs with hm
  · exact h hm
  · trivial

/-- **What every step keeps**, fenced or not. -/
theorem Inv.step (hi : s.Inv n) (hs : s.step P e = some s') :
    s'.Inv n ∧ s.coordinator.Advances n s'.coordinator := by
  have hsame := hi.tables.advances
  cases e with
  | getTask w now =>
    dsimp only [System.step, System.getTask] at hs
    split at hs
    · obtain ⟨⟨c, task⟩, hc, rfl⟩ := Option.map_eq_some_iff.1 hs
      have hadv := hi.tables.getMapTask hc
      refine ⟨hi.setWorker hadv.tables s.files w ?_, hadv⟩
      obtain ⟨-, rfl, -⟩ | ⟨i, p, t, -, ht, -, rfl, -⟩ := Coordinator.getMapTask_cases hc
      · trivial
      · exact sane_start fun _ => (hi.tables.isMap t ht).2
    · obtain ⟨⟨c, task⟩, hc, rfl⟩ := Option.map_eq_some_iff.1 hs
      have hadv := hi.tables.getReduceTask hc
      refine ⟨hi.setWorker hadv.tables s.files w ?_, hadv⟩
      obtain ⟨-, ⟨-, rfl⟩ | ⟨i, p, t, -, ht, -, rfl⟩⟩ := Coordinator.getReduceTask_cases hc
      · trivial
      · refine sane_start fun hm => ?_
        exact absurd (hm.symm.trans (hi.tables.isReduce i t ht).1) (by simp)
    · cases hs
  | read w size =>
    obtain ⟨worker, hw, rfl⟩ := Option.map_eq_some_iff.1 hs
    exact ⟨hi.setWorker hi.tables s.files w (Worker.sane_read hw (hi.sane w)), hsame⟩
  | create w =>
    obtain ⟨⟨name, worker⟩, hw, rfl⟩ := Option.map_eq_some_iff.1 hs
    exact ⟨hi.setWorker hi.tables _ w ((Worker.writes_of_create hw).2 (hi.sane w)), hsame⟩
  | write w =>
    obtain ⟨⟨name, offset, bytes, worker⟩, hw, rfl⟩ := Option.map_eq_some_iff.1 hs
    exact ⟨hi.setWorker hi.tables _ w ((Worker.writes_of_write hw).2 (hi.sane w)), hsame⟩
  | close w =>
    obtain ⟨worker, hw, rfl⟩ := Option.map_eq_some_iff.1 hs
    exact ⟨hi.setWorker hi.tables s.files w (Worker.sane_close hw), hsame⟩
  | report w =>
    have hend : ∀ err : Option Err,
        (if err = none then Worker.idle else Worker.exited).Sane := by
      intro err
      split_ifs <;> trivial
    dsimp only [System.step, System.report] at hs
    split at hs
    · obtain ⟨⟨c, err⟩, hc, rfl⟩ := Option.map_eq_some_iff.1 hs
      have hadv := hi.tables.mapTaskDone hc
      exact ⟨hi.setWorker hadv.tables s.files w (hend err), hadv⟩
    · rename_i task _
      cases hs
      have hadv := hi.tables.reduceTaskDone ⟨task.index, task.txnID, []⟩
      exact ⟨hi.setWorker hadv.tables s.files w (hend _), hadv⟩
    · cases hs
  | crash w =>
    cases hs
    exact ⟨hi.setWorker hi.tables s.files w trivial, hsame⟩
  | inspectMapTasks now order =>
    obtain ⟨c, hc, rfl⟩ := Option.map_eq_some_iff.1 hs
    have hadv := hi.tables.inspectMapTasks hc
    exact ⟨⟨hadv.tables, hi.sane⟩, hadv⟩
  | inspectReduceTasks now order =>
    obtain ⟨c, hc, rfl⟩ := Option.map_eq_some_iff.1 hs
    have hadv := hi.tables.inspectReduceTasks hc
    exact ⟨⟨hadv.tables, hi.sane⟩, hadv⟩

/-- The files of the completed tasks are the same. -/
def SameOutput (s s' : System) : Prop :=
  (∀ i r : ℕ, s.coordinator.maps.status i = some .completed →
    s'.files (mapFile i r) = s.files (mapFile i r)) ∧
  ∀ i : ℤ, s.coordinator.reduces.status i = some .completed →
    s'.files (outFile i) = s.files (outFile i)

/-- Only the file that the worker writes to changes. -/
lemma sameOutput_of_writes (hi : s.Inv n) {w : ℕ} {name : GoString}
    (hw : (s.workers w).Writes name) (hc : (s.workers w).Unfinished s.coordinator)
    (hfiles : ∀ name' ≠ name, s'.files name' = s.files name') : SameOutput s s' := by
  obtain ⟨hmap, hout⟩ := hw.ne (hi.sane w) hc
  exact ⟨fun i r h => hfiles _ (hmap i r h).symm, fun i h => hfiles _ (hout i h).symm⟩

lemma files_getTask {w now : ℕ} (hs : s.getTask w now = some s') : s'.files = s.files := by
  unfold getTask at hs
  split at hs
  · obtain ⟨r, -, rfl⟩ := Option.map_eq_some_iff.1 hs
    rfl
  · obtain ⟨r, -, rfl⟩ := Option.map_eq_some_iff.1 hs
    rfl
  · cases hs

lemma files_report {w : ℕ} (hs : s.report w = some s') : s'.files = s.files := by
  unfold report at hs
  split at hs
  · obtain ⟨r, -, rfl⟩ := Option.map_eq_some_iff.1 hs
    rfl
  · cases hs
    rfl
  · cases hs

/-- **One step keeps the output of the completed tasks.** -/
theorem Inv.sameOutput (hi : s.Inv n) (hok : s.Unfinished e) (hs : s.step P e = some s') :
    SameOutput s s' := by
  have hsame : s'.files = s.files → SameOutput s s' := fun h =>
    ⟨fun _ _ _ => by rw [h], fun _ _ => by rw [h]⟩
  cases e with
  | getTask w now => exact hsame (files_getTask hs)
  | read w size =>
    obtain ⟨worker, -, rfl⟩ := Option.map_eq_some_iff.1 hs
    exact hsame rfl
  | create w =>
    obtain ⟨⟨name, worker⟩, hw, rfl⟩ := Option.map_eq_some_iff.1 hs
    refine sameOutput_of_writes hi (Worker.writes_of_create hw).1 hok fun name' hne => ?_
    exact Function.update_of_ne hne _ _
  | write w =>
    obtain ⟨⟨name, offset, bytes, worker⟩, hw, rfl⟩ := Option.map_eq_some_iff.1 hs
    refine sameOutput_of_writes hi (Worker.writes_of_write hw).1 hok fun name' hne => ?_
    exact Function.update_of_ne hne _ _
  | close w =>
    obtain ⟨worker, -, rfl⟩ := Option.map_eq_some_iff.1 hs
    exact hsame rfl
  | report w => exact hsame (files_report hs)
  | crash w =>
    cases hs
    exact hsame rfl
  | inspectMapTasks now order =>
    obtain ⟨c, -, rfl⟩ := Option.map_eq_some_iff.1 hs
    exact hsame rfl
  | inspectReduceTasks now order =>
    obtain ⟨c, -, rfl⟩ := Option.map_eq_some_iff.1 hs
    exact hsame rfl

lemma inv_init (inputs : List GoString) (nReduce : ℤ) (files : Files) :
    (init inputs nReduce files).Inv inputs.length :=
  ⟨Coordinator.tables_make inputs nReduce, fun _ => trivial⟩

section Output

variable {inputs : List GoString} {nReduce : ℤ} {files : Files} {ok : System → Event → Prop}

/-- The output of completed tasks in runs whose steps keep off it. -/
lemma sameOutput_of_reachable (hok : ∀ s e, s.Inv inputs.length → ok s e → s.Unfinished e)
    (h : Reachable (step P) ok (init inputs nReduce files) s) (h' : Reachable (step P) ok s s') :
    SameOutput s s' := by
  have hi : s.Inv inputs.length := Reachable.invariant (P := fun s => s.Inv inputs.length)
    (inv_init inputs nReduce files) (fun _ _ _ _ hi _ hs => (hi.step hs).1) h
  -- from `s` on, completed tasks stay completed and their files stay as they are
  suffices hkeep : s'.Inv inputs.length ∧ s.coordinator.maps.Later s'.coordinator.maps ∧
      s.coordinator.reduces.Later s'.coordinator.reduces ∧ SameOutput s s' from hkeep.2.2.2
  refine Reachable.invariant (P := fun s' => s'.Inv inputs.length ∧
    s.coordinator.maps.Later s'.coordinator.maps ∧
    s.coordinator.reduces.Later s'.coordinator.reduces ∧ SameOutput s s')
    ⟨hi, .refl _, .refl _, fun _ _ _ => rfl, fun _ _ => rfl⟩ ?_ h'
  rintro s₁ e s₂ - ⟨hi₁, hmaps, hreduces, hmap, hout⟩ he hs
  obtain ⟨hi₂, hadv⟩ := hi₁.step hs
  obtain ⟨hmap', hout'⟩ := hi₁.sameOutput (hok s₁ e hi₁ he) hs
  refine ⟨hi₂, hmaps.trans hadv.maps, hreduces.trans hadv.reduces, fun i r hc => ?_, fun i hc => ?_⟩
  · exact (hmap' i r (hmaps.completed i hc)).trans (hmap i r hc)
  · exact (hout' i (hreduces.completed i hc)).trans (hout i hc)

/-- **The output of completed tasks does not change** in any run in which no file is created or
written for a task that is completed. -/
theorem completed_output_fixed
    (h : Reachable (step P) Unfinished (init inputs nReduce files) s)
    (h' : Reachable (step P) Unfinished s s') : SameOutput s s' :=
  sameOutput_of_reachable (fun _ _ _ he => he) h h'

/-- **Fencing the files by transactions would be enough.** -/
theorem fenced_output_fixed (h : Reachable (step P) Fenced (init inputs nReduce files) s)
    (h' : Reachable (step P) Fenced s s') : SameOutput s s' := by
  refine sameOutput_of_reachable (fun s e hi he => ?_) h h'
  cases e with
  | create w => exact Worker.Current.unfinished hi.tables he
  | write w => exact Worker.Current.unfinished hi.tables he
  | _ => trivial

end Output

/-- A program that emits one pair for every input. -/
def onePair : Program where
  mapf _ _ := [⟨[97], [49]⟩]
  reducef _ _ := [49]
  encode kv := kv.key ++ kv.value
  decode buffer := if buffer = [97, 49] then [⟨[97], [49]⟩] else []
  sort kva := kva

/-- One input file, which is empty. -/
def oneInput : System := init [[120]] 1 fun name => if name = [120] then some [] else none

/-- Worker `w` does the map task and reports it. -/
def doMap (w now : ℕ) : List Event :=
  [.getTask w now, .read w 1, .create w, .write w, .close w, .report w]

/-- Worker `w` does the reduce task and reports it. -/
def doReduce (w now : ℕ) : List Event :=
  [.getTask w now, .getTask w now, .read w 2, .read w 2, .read w 2, .create w, .write w, .close w,
    .report w]

theorem completed_output_fixed_one_worker : ∃ s s',
    Reachable (step onePair) Unfinished oneInput s ∧ Reachable (step onePair) Unfinished s s' ∧
    s.coordinator.maps.status 0 = some .completed ∧ s.files (mapFile 0 0) = some [97, 49] ∧
    s'.coordinator.reduces.status 0 = some .completed ∧ s'.files (mapFile 0 0) = some [97, 49] := by
  have hrun : ((run (guarded (step onePair) Unfinished) oneInput (doMap 0 0)).bind fun s =>
      (run (guarded (step onePair) Unfinished) s (doReduce 0 0)).map fun s' =>
        decide (s.coordinator.maps.status 0 = some .completed ∧
          s.files (mapFile 0 0) = some [97, 49] ∧
          s'.coordinator.reduces.status 0 = some .completed)) = some true := by
    decide +kernel
  obtain ⟨s, hs, hrun⟩ := Option.bind_eq_some_iff.1 hrun
  obtain ⟨s', hs', hd⟩ := Option.map_eq_some_iff.1 hrun
  obtain ⟨hstatus, hfile, hstatus'⟩ := of_decide_eq_true hd
  have hr : Reachable (step onePair) Unfinished oneInput s := Reachable.init.run_guarded hs
  have hr' : Reachable (step onePair) Unfinished s s' := Reachable.init.run_guarded hs'
  refine ⟨s, s', hr, hr', hstatus, hfile, hstatus', ?_⟩
  exact ((completed_output_fixed hr hr').1 0 0 hstatus).trans hfile

/-- Worker `0` is slow; its transaction times out, and worker `1` completes the task. -/
def slowWorker : List Event :=
  [.getTask 0 0, .read 0 1, .inspectMapTasks (fun _ => 11 * 10 ^ 9) [0]] ++ doMap 1 (11 * 10 ^ 9)

/-- **A stale worker truncates a finished file**: the next thing worker `0` does is to create it. -/
theorem stale_worker_truncates : ∃ s s',
    Reachable (step onePair) anyStep oneInput s ∧ Reachable (step onePair) anyStep s s' ∧
    s.coordinator.maps.status 0 = some .completed ∧ s.files (mapFile 0 0) = some [97, 49] ∧
    s'.files (mapFile 0 0) = some [] := by
  have hrun : ((run (step onePair) oneInput slowWorker).bind fun s =>
      (run (step onePair) s [.create 0]).map fun s' =>
        decide (s.coordinator.maps.status 0 = some .completed ∧
          s.files (mapFile 0 0) = some [97, 49] ∧ s'.files (mapFile 0 0) = some [])) =
      some true := by
    decide +kernel
  obtain ⟨s, hs, hrun⟩ := Option.bind_eq_some_iff.1 hrun
  obtain ⟨s', hs', hd⟩ := Option.map_eq_some_iff.1 hrun
  obtain ⟨hstatus, hfile, hfile'⟩ := of_decide_eq_true hd
  exact ⟨s, s', Reachable.init.run hs, Reachable.init.run hs', hstatus, hfile, hfile'⟩

end System

end RaftLabs.MapReduce
