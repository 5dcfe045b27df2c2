import RaftLabs.MapReduce.EndToEnd

/-!
# The job can always be finished

No state is a dead end, in any run, fenced or not: workers may have crashed or be as slow as they like,
transactions may have timed out, files may have been overwritten by stale workers.  What is out can be
taken back by an inspection once its time is over, and then one worker that is still asking for tasks
does the rest.  It finds its input, since nobody writes to the input files, and the files that it is
given for a reduce task, since each of them has been created by the worker that has reported it.
-/

namespace RaftLabs.MapReduce

open Lib

variable {P : Program} {inputs : List Input} {nReduce : ℤ} {name : GoString} {files files' : Files}
  {worker worker' : Worker} {t : Task}

/-! ### Names that are reported -/

/-- The file is one of map task `index`, and it is there. -/
def Files.Has (files : Files) (index : ℤ) (name : GoString) : Prop :=
  (∃ r : ℕ, r < 2 ^ 63 ∧ name = mapFile index r) ∧ files name ≠ none

/-- A worker that does a map task has its files. -/
def Worker.Tidy (files : Files) : Worker → Prop
  | .mapping t _ opened => (opened.map Prod.fst).Nodup ∧
      ∀ name ∈ opened.map Prod.fst, files.Has t.index name
  | .mapClosed t names => names.Nodup ∧ ∀ name ∈ names, files.Has t.index name
  | _ => True

lemma Files.Has.mono {index : ℤ} (h : files.Has index name)
    (hkeep : ∀ name, files name ≠ none → files' name ≠ none) : files'.Has index name :=
  ⟨h.1, hkeep name h.2⟩

namespace Worker

lemma Tidy.mono (h : worker.Tidy files) (hkeep : ∀ name, files name ≠ none → files' name ≠ none) :
    worker.Tidy files' := by
  cases worker with
  | mapping t kva opened => exact ⟨h.1, fun name hname => (h.2 name hname).mono hkeep⟩
  | mapClosed t names => exact ⟨h.1, fun name hname => (h.2 name hname).mono hkeep⟩
  | _ => trivial

lemma tidy_start (files : Files) (t : Task) : (start t).Tidy files := by
  unfold start
  split_ifs <;> trivial

lemma tidy_read {size : ℕ} (h : worker.read P files size = some worker') : worker'.Tidy files' := by
  unfold read at h
  split at h
  · obtain ⟨filename, -, rfl⟩ := Option.map_eq_some_iff.1 h
    split
    · trivial
    · split_ifs
      · exact ⟨List.nodup_nil, fun _ h => absurd h List.not_mem_nil⟩
      · trivial
  · split at h
    · cases h
      trivial
    · split_ifs at h <;> cases h <;> trivial
  · cases h
    trivial
  · cases h

lemma Tidy.close (h : worker.Tidy files) (hr : worker.close = some worker') :
    worker'.Tidy files := by
  unfold Worker.close at hr
  split at hr <;> cases hr
  · exact h
  · trivial

lemma Tidy.create (h : worker.Tidy files) (hr : worker.create = some (name, worker'))
    (hkeep : ∀ name, files name ≠ none → files' name ≠ none) (hnew : files' name ≠ none) :
    worker'.Tidy files' := by
  cases worker with
  | mapping t kva opened =>
    cases kva with
    | nil => cases hr
    | cons kv kva =>
      obtain ⟨name', hname, hr⟩ := Option.bind_eq_some_iff.1 hr
      obtain ⟨hnot, hr⟩ := Option.ite_none_left_eq_some.1 hr
      cases hr
      refine ⟨?_, fun x hx => ?_⟩
      · simpa [List.nodup_append] using ⟨h.1, fun a b hab he => hnot (by
          rw [← he]
          exact List.mem_map_of_mem hab)⟩
      · rw [List.map_append, List.mem_append] at hx
        rcases hx with hx | hx
        · exact (h.2 x hx).mono hkeep
        · rw [List.map_singleton, List.mem_singleton] at hx
          subst hx
          exact ⟨exists_of_iFileName hname, hnew⟩
  | reduceSorted t lines =>
    cases hr
    trivial
  | _ => cases hr

lemma Tidy.write (h : worker.Tidy files) {offset : ℕ} {bytes : GoString}
    (hr : worker.write P = some (name, offset, bytes, worker'))
    (hkeep : ∀ name, files name ≠ none → files' name ≠ none) : worker'.Tidy files' := by
  cases worker with
  | mapping t kva opened =>
    cases kva with
    | nil => cases hr
    | cons kv kva =>
      obtain ⟨name', hname, hr⟩ := Option.bind_eq_some_iff.1 hr
      obtain ⟨offset', -, hr⟩ := Option.map_eq_some_iff.1 hr
      cases hr
      have hfst := map_fst_advance opened name (offset + (P.encode kv).length)
      dsimp only [Worker.Tidy]
      rw [hfst]
      exact ⟨h.1, fun x hx => (h.2 x hx).mono hkeep⟩
  | reducing t lines offset =>
    cases lines with
    | nil => cases hr
    | cons line lines =>
      cases hr
      trivial
  | _ => cases hr

end Worker

/-! ### What holds in every run -/

/-- What the coordinator does in a step, if anything. -/
structure Coordinates (j : Journal) (s : System) (e : JobEvent) (job : Job) : Prop where
  step : j.job.step e = some job
  report : ∀ req, e = .mapTaskDone req → ∃ w t names, s.workers w = .mapClosed t names ∧
    req = ⟨t.index, t.txnID, names⟩

namespace System

variable {s s' : System} {e : Event} {j j' : Journal} {w n : ℕ}

lemma exists_coordinates (hsame : j.job.coordinator = s.coordinator) (hs : s.step P e = some s') :
    s'.coordinator = s.coordinator ∨
      ∃ e' job, Coordinates j s e' job ∧ job.coordinator = s'.coordinator := by
  cases e with
  | getTask w now =>
    dsimp only [step, System.getTask] at hs
    split at hs
    · obtain ⟨r, hr, rfl⟩ := Option.map_eq_some_iff.1 hs
      exact Or.inr ⟨.getMapTask now, j.job.hand r, ⟨by simp [Job.step, hsame, hr], by simp⟩, rfl⟩
    · obtain ⟨r, hr, rfl⟩ := Option.map_eq_some_iff.1 hs
      exact Or.inr ⟨.getReduceTask now, j.job.hand r, ⟨by simp [Job.step, hsame, hr], by simp⟩, rfl⟩
    · cases hs
  | read w size =>
    obtain ⟨worker, -, rfl⟩ := Option.map_eq_some_iff.1 hs
    exact Or.inl rfl
  | create w =>
    obtain ⟨r, -, rfl⟩ := Option.map_eq_some_iff.1 hs
    exact Or.inl rfl
  | write w =>
    obtain ⟨r, -, rfl⟩ := Option.map_eq_some_iff.1 hs
    exact Or.inl rfl
  | close w =>
    obtain ⟨worker, -, rfl⟩ := Option.map_eq_some_iff.1 hs
    exact Or.inl rfl
  | report w =>
    dsimp only [step, System.report] at hs
    split at hs
    · rename_i t names hw
      obtain ⟨r, hr, rfl⟩ := Option.map_eq_some_iff.1 hs
      refine Or.inr ⟨.mapTaskDone ⟨t.index, t.txnID, names⟩, { j.job with coordinator := r.1 },
        ⟨by simp [Job.step, hsame, hr], ?_⟩, rfl⟩
      rintro req ⟨⟩
      exact ⟨w, t, names, hw, rfl⟩
    · rename_i t hw
      cases hs
      refine Or.inr ⟨.reduceTaskDone ⟨t.index, t.txnID, []⟩, { j.job with
        coordinator := (s.coordinator.reduceTaskDone ⟨t.index, t.txnID, []⟩).1 },
        ⟨by simp [Job.step, hsame], by simp⟩, rfl⟩
    · cases hs
  | crash w =>
    cases hs
    exact Or.inl rfl
  | inspectMapTasks now order =>
    obtain ⟨c, hc, rfl⟩ := Option.map_eq_some_iff.1 hs
    exact Or.inr ⟨.inspectMapTasks now order, { j.job with coordinator := c },
      ⟨by simp [Job.step, hsame, hc], by simp⟩, rfl⟩
  | inspectReduceTasks now order =>
    obtain ⟨c, hc, rfl⟩ := Option.map_eq_some_iff.1 hs
    exact Or.inr ⟨.inspectReduceTasks now order, { j.job with coordinator := c },
      ⟨by simp [Job.step, hsame, hc], by simp⟩, rfl⟩

/-- No file is removed, and the workers write to their own files only. -/
lemma files_step (hsane : ∀ w, (s.workers w).Sane) (hs : s.step P e = some s') :
    (∀ name, s.files name ≠ none → s'.files name ≠ none) ∧
    ∀ name, (∀ i r : ℕ, name ≠ mapFile i r) → (∀ r : ℤ, name ≠ outFile r) →
      s'.files name = s.files name := by
  have hsame : s'.files = s.files →
      (∀ name, s.files name ≠ none → s'.files name ≠ none) ∧
      ∀ name, (∀ i r : ℕ, name ≠ mapFile i r) → (∀ r : ℤ, name ≠ outFile r) →
        s'.files name = s.files name := by
    intro he
    rw [he]
    exact ⟨fun _ => id, fun _ _ _ => rfl⟩
  have hwrites : ∀ {worker : Worker} {name name' : GoString}, worker.Sane → worker.Writes name →
      (∀ i r : ℕ, name' ≠ mapFile i r) → (∀ r : ℤ, name' ≠ outFile r) → name' ≠ name := by
    rintro worker name name' hw hname hmap hout rfl
    cases worker with
    | mapping t kva opened =>
      obtain ⟨i, hi⟩ := hw
      obtain ⟨r, hr⟩ := hname
      rw [hi] at hr
      exact hmap i r hr
    | reduceSorted t lines => exact hout _ hname
    | reducing t lines offset => exact hout _ hname
    | _ => exact hname
  cases e with
  | getTask w now => exact hsame (files_getTask hs)
  | read w size =>
    obtain ⟨worker, -, rfl⟩ := Option.map_eq_some_iff.1 hs
    exact hsame rfl
  | create w =>
    obtain ⟨⟨name, worker⟩, hw, rfl⟩ := Option.map_eq_some_iff.1 hs
    refine ⟨fun x hx => ?_, fun x hmap hout => ?_⟩
    · by_cases he : x = name
      · subst he
        simp [setWorker, Files.create]
      · simpa [setWorker, Files.create, he] using hx
    · exact Function.update_of_ne
        (hwrites (hsane w) (Worker.writes_of_create hw).1 hmap hout) _ _
  | write w =>
    obtain ⟨⟨name, offset, bytes, worker⟩, hw, rfl⟩ := Option.map_eq_some_iff.1 hs
    refine ⟨fun x hx => ?_, fun x hmap hout => ?_⟩
    · by_cases he : x = name
      · subst he
        simpa [setWorker, Files.write] using hx
      · simpa [setWorker, Files.write, he] using hx
    · exact Function.update_of_ne
        (hwrites (hsane w) (Worker.writes_of_write hw).1 hmap hout) _ _
  | close w =>
    obtain ⟨worker, -, rfl⟩ := Option.map_eq_some_iff.1 hs
    exact hsame rfl
  | report w => exact hsame (files_report hs)
  | crash w =>
    cases hs
    exact hsame rfl
  | inspectMapTasks now order =>
    obtain ⟨c, -, rfl⟩ := Option.map_eq_some_iff.1 hs
    exact hsame rfl
  | inspectReduceTasks now order =>
    obtain ⟨c, -, rfl⟩ := Option.map_eq_some_iff.1 hs
    exact hsame rfl

/-- **What holds in every run**, with stale workers and all. -/
structure Live (inputs : List Input) (nReduce : ℤ) (j : Journal) (s : System) : Prop where
  inv : s.Inv inputs.length
  journal : j.Inv inputs.length
  same : j.job.coordinator = s.coordinator
  mapTasks : s.coordinator.mapTasks =
    (Coordinator.make (inputs.map Input.filename) nReduce).mapTasks
  given : Given inputs s.files
  idle : ∃ k, ∀ w, k ≤ w → s.workers w = .idle
  tidy : ∀ w, (s.workers w).Tidy s.files
  accepted : ∀ req ∈ j.accepted, ∀ name ∈ req.filenames, s.files name ≠ none

/-- One worker moves. -/
lemma workers_step (hkeep : ∀ name, s.files name ≠ none → s'.files name ≠ none)
    (hs : s.step P e = some s') :
    ∃ w worker, s'.workers = Function.update s.workers w worker ∧
      ((s.workers w).Tidy s.files → worker.Tidy s'.files) := by
  have hsame : s'.workers = s.workers → ∃ w worker,
      s'.workers = Function.update s.workers w worker ∧
        ((s.workers w).Tidy s.files → worker.Tidy s'.files) := by
    intro he
    exact ⟨0, s.workers 0, by rw [he, Function.update_eq_self], fun h => h.mono hkeep⟩
  cases e with
  | getTask w now =>
    dsimp only [step, System.getTask] at hs
    split at hs
    · obtain ⟨⟨c, task⟩, -, rfl⟩ := Option.map_eq_some_iff.1 hs
      refine ⟨w, _, rfl, fun _ => ?_⟩
      cases task with
      | none => trivial
      | some t => exact Worker.tidy_start _ t
    · obtain ⟨⟨c, task⟩, -, rfl⟩ := Option.map_eq_some_iff.1 hs
      refine ⟨w, _, rfl, fun _ => ?_⟩
      cases task with
      | none => trivial
      | some t => exact Worker.tidy_start _ t
    · cases hs
  | read w size =>
    obtain ⟨worker, hw, rfl⟩ := Option.map_eq_some_iff.1 hs
    exact ⟨w, worker, rfl, fun _ => Worker.tidy_read hw⟩
  | create w =>
    obtain ⟨⟨name, worker⟩, hw, rfl⟩ := Option.map_eq_some_iff.1 hs
    exact ⟨w, worker, rfl, fun h => h.create hw hkeep (by simp [setWorker, Files.create])⟩
  | write w =>
    obtain ⟨⟨name, offset, bytes, worker⟩, hw, rfl⟩ := Option.map_eq_some_iff.1 hs
    exact ⟨w, worker, rfl, fun h => h.write hw hkeep⟩
  | close w =>
    obtain ⟨worker, hw, rfl⟩ := Option.map_eq_some_iff.1 hs
    exact ⟨w, worker, rfl, fun h => h.close hw⟩
  | report w =>
    have hend : ∀ err : Option Err,
        (if err = none then Worker.idle else Worker.exited).Tidy s'.files := by
      intro err
      split_ifs <;> trivial
    dsimp only [step, System.report] at hs
    split at hs
    · obtain ⟨r, -, rfl⟩ := Option.map_eq_some_iff.1 hs
      exact ⟨w, _, rfl, fun _ => hend r.2⟩
    · cases hs
      exact ⟨w, _, rfl, fun _ => hend _⟩
    · cases hs
  | crash w =>
    cases hs
    exact ⟨w, _, rfl, fun _ => trivial⟩
  | inspectMapTasks now order =>
    obtain ⟨c, -, rfl⟩ := Option.map_eq_some_iff.1 hs
    exact hsame rfl
  | inspectReduceTasks now order =>
    obtain ⟨c, -, rfl⟩ := Option.map_eq_some_iff.1 hs
    exact hsame rfl

/-- What the coordinator accepts has been reported by a worker that has its files. -/
lemma Live.journal_step (h : Live inputs nReduce j s) (hs : s.step P e = some s')
    (hkeep : ∀ name, s.files name ≠ none → s'.files name ≠ none) :
    ∃ j' : Journal, j'.Inv inputs.length ∧ j'.job.coordinator = s'.coordinator ∧
      ∀ req ∈ j'.accepted, ∀ name ∈ req.filenames, s'.files name ≠ none := by
  have hold : ∀ req ∈ j.accepted, ∀ name ∈ req.filenames, s'.files name ≠ none :=
    fun req hreq name hname => hkeep name (h.accepted req hreq name hname)
  obtain hc | ⟨e', job, hco, hc⟩ := exists_coordinates h.same hs
  · exact ⟨j, h.journal, h.same.trans hc.symm, hold⟩
  have hreport : ∀ req, e' = .mapTaskDone req →
      req.WellNamed ∧ ∀ name ∈ req.filenames, s'.files name ≠ none := by
    intro req he
    obtain ⟨w, t, names, hw, rfl⟩ := hco.report req he
    have htidy := h.tidy w
    rw [hw] at htidy
    exact ⟨⟨htidy.1, fun name hname => (htidy.2 name hname).1⟩,
      fun name hname => hkeep name (htidy.2 name hname).2⟩
  have hok : j.Reports e' := by
    cases e' with
    | mapTaskDone req => exact (hreport req rfl).1
    | _ => trivial
  have hstep : j.step e' = some ⟨job, j.accepted ++ j.job.coordinator.accepts e'⟩ := by
    simp [Journal.step, hco.step]
  refine ⟨_, h.journal.step hok hstep, hc, fun req hreq => ?_⟩
  rcases List.mem_append.1 hreq with hreq | hreq
  · exact hold req hreq
  · cases e' with
    | mapTaskDone req' =>
      unfold Coordinator.accepts at hreq
      dsimp only at hreq
      split at hreq
      · rw [List.mem_singleton.1 hreq]
        exact (hreport req' rfl).2
      · exact absurd hreq List.not_mem_nil
    | _ => exact absurd hreq List.not_mem_nil

theorem Live.step (h : Live inputs nReduce j s) (hs : s.step P e = some s') :
    ∃ j', Live inputs nReduce j' s' := by
  obtain ⟨hinv, hadv⟩ := h.inv.step hs
  obtain ⟨hkeep, hinput⟩ := files_step h.inv.sane hs
  obtain ⟨w, worker, hworkers, htidy⟩ := workers_step hkeep hs
  obtain ⟨j', hjournal, hsame, haccepted⟩ := h.journal_step hs hkeep
  refine ⟨j', hinv, hjournal, hsame, hadv.mapTasks.trans h.mapTasks,
    ⟨fun input hin => ?_, h.given.notMap, h.given.notOut⟩, ?_, fun v => ?_, haccepted⟩
  · rw [hinput _ (h.given.notMap input hin) (h.given.notOut input hin)]
    exact h.given.present input hin
  · obtain ⟨k, hk⟩ := h.idle
    refine ⟨max k (w + 1), fun v hv => ?_⟩
    rw [hworkers, Function.update_of_ne (by omega)]
    exact hk v (by omega)
  · rw [hworkers]
    by_cases hv : v = w
    · subst hv
      rw [Function.update_self]
      exact htidy (h.tidy v)
    · rw [Function.update_of_ne hv]
      exact (h.tidy v).mono hkeep

lemma live_init (hgiven : Given inputs files) :
    Live inputs nReduce (Journal.init (inputs.map Input.filename) nReduce)
      (init (inputs.map Input.filename) nReduce files) where
  inv := by simpa using inv_init (inputs.map Input.filename) nReduce files
  journal := by simpa using Journal.inv_init (inputs.map Input.filename) nReduce
  same := rfl
  mapTasks := rfl
  given := hgiven
  idle := ⟨0, fun _ _ => rfl⟩
  tidy _ := trivial
  accepted _ h := absurd h List.not_mem_nil

lemma exists_live_of_reachable (h : ∃ j, Live inputs nReduce j s)
    (hr : Reachable (step P) anyStep s s') : ∃ j, Live inputs nReduce j s' :=
  Reachable.invariant (P := fun s => ∃ j, Live inputs nReduce j s) h
    (fun _ _ _ _ ⟨_, h⟩ _ hs => h.step hs) hr

/-! ### One more task -/

lemma Moves.reachable (h : Moves P w s s') : Reachable (step P) anyStep s s' := by
  induction h with
  | refl => exact .init
  | tail _ hs ih =>
    obtain ⟨e, -, hs⟩ := hs
    exact ih.step e trivial hs

lemma place_self (s : System) (w : ℕ) : s.place w s.files (s.workers w) = s := by
  unfold place
  rw [Function.update_eq_self]

end System

/-- All transactions have timed out, and are taken back. -/
lemma Coordinator.exists_inspect (p : Pool ℤ Transaction) :
    ∃ now order p', inspect p now order = some p' ∧ (∀ i, i ∉ p'.leases) ∧
      p'.completedCnt = p.completedCnt := by
  set now : ℤ → ℕ := fun i => ((p.leases.lookup i).map Transaction.beginTime).getD 0 +
    timeoutLimit + 1 with hnow
  have hall : p.leases.keys.filter (timedOut p now) = p.leases.keys := by
    rw [List.filter_eq_self]
    intro i hi
    obtain ⟨txn, htxn⟩ := Option.isSome_iff_exists.1 (AList.lookup_isSome.2 (AList.mem_keys.2 hi))
    simp only [timedOut, htxn, hnow, Option.map_some, Option.getD_some]
    exact decide_eq_true (by omega)
  refine ⟨now, p.leases.keys, p.releaseAll p.leases.keys, ?_, fun i hi => ?_,
    Pool.releaseAll_completedCnt _ _⟩
  · rw [inspect, if_pos (.refl _), hall]
  · obtain ⟨txn, htxn⟩ := Option.isSome_iff_exists.1 (AList.lookup_isSome.2 hi)
    have hmem : i ∈ p.leases.keys := AList.mem_keys.1
      (AList.lookup_isSome.1 (Option.isSome_of_eq_some (Pool.lookup_releaseAll htxn)))
    rw [Pool.lookup_releaseAll_of_mem hmem] at htxn
    cases htxn

/-- A map task goes out when none is out and not all are completed. -/
lemma Coordinator.exists_getMapTask {c : Coordinator} (htables : c.Tables inputs.length)
    (hc : c.mapTasks = (make (inputs.map Input.filename) nReduce).mapTasks)
    (hl : ∀ i, i ∉ c.maps.leases) (hlt : c.maps.completedCnt < inputs.length) :
    ∃ c' t i input, c.getMapTask 0 = some (c', some t) ∧ IsMap inputs nReduce t i input ∧
      t.Current c' ∧ c'.maps.completedCnt = c.maps.completedCnt := by
  obtain ⟨k, queue, hqueue⟩ := htables.maps.exists_queue hl (by simpa using hlt)
  obtain ⟨p, htake, -, hleases⟩ := Pool.exists_take hqueue (⟨c.nextTxnID, 0⟩ : Transaction)
  obtain ⟨t, ht⟩ : ∃ t, c.mapTask k = some t := by
    obtain ⟨i, hi, rfl⟩ := Finset.mem_map.1 (htables.maps.queued k (by simp [hqueue]))
    refine ⟨_, (if_pos (Int.natCast_nonneg i)).trans (List.getElem?_eq_getElem ?_)⟩
    rw [htables.length]
    simpa using hi
  obtain ⟨i, input, hmap, rfl⟩ := exists_isMap hc ht c.nextTxnID
  refine ⟨{ c with maps := p, nextTxnID := c.nextTxnID + 1 }, cloneTask t c.nextTxnID, i, input, ?_,
    hmap, ?_, Pool.take_completedCnt htake⟩
  · unfold getMapTask
    rw [if_neg (by simp [hqueue]), if_neg (by rw [htables.length]; omega), htake, Option.bind_some,
      ht, Option.map_some]
  · rw [Task.Current, if_pos hmap.isMapTask, hmap.index]
    simp [hleases, cloneTask]

/-- The same for a reduce task, when all map tasks are completed. -/
lemma Coordinator.exists_getReduceTask {c : Coordinator} {n : ℕ} (htables : c.Tables n)
    (hmaps : c.mapTasks.length ≤ c.maps.completedCnt) (hl : ∀ i, i ∉ c.reduces.leases)
    (hlt : c.reduces.completedCnt < c.reduceTasks.keys.length) :
    ∃ c' t, c.getReduceTask 0 = some (c', some t) ∧ t.isMapTask = false ∧
      t.filenames = c.filesOf t.index ∧ t.Current c' ∧ c'.maps = c.maps ∧
      c'.mapTasks = c.mapTasks ∧ c'.reduceTasks = c.reduceTasks ∧
      c'.reduces.completedCnt = c.reduces.completedCnt := by
  have hcard : c.reduceIndices.card = c.reduceTasks.keys.length :=
    List.toFinset_card_of_nodup c.reduceTasks.keys_nodup
  obtain ⟨r, queue, hqueue⟩ := htables.reduces.exists_queue hl (hcard ▸ hlt)
  obtain ⟨p, htake, -, hleases⟩ := Pool.exists_take hqueue (⟨c.nextTxnID, 0⟩ : Transaction)
  have hmem : r ∈ c.reduceTasks :=
    Coordinator.mem_reduceIndices.1 (htables.reduces.queued r (by simp [hqueue]))
  obtain ⟨t, ht⟩ := Option.isSome_iff_exists.1 (AList.lookup_isSome.2 hmem)
  obtain ⟨hreduce, rfl⟩ := htables.isReduce r t ht
  refine ⟨{ c with reduces := p, nextTxnID := c.nextTxnID + 1 }, cloneTask t c.nextTxnID, ?_, hreduce,
    ?_, ?_, rfl, rfl, rfl, Pool.take_completedCnt htake⟩
  · unfold getReduceTask
    rw [if_neg (by omega), if_neg (by simp [hqueue]), if_neg (by omega), htake, Option.bind_some, ht,
      Option.map_some]
  · show t.filenames = c.filesOf t.index
    rw [filesOf, ht]
    rfl
  · rw [Task.Current, show (cloneTask t c.nextTxnID).isMapTask = false from hreduce]
    simp [hleases, cloneTask]

namespace System

variable {s s' : System} {j : Journal} {w : ℕ}

/-- **One more map task can be completed.** -/
lemma Live.map_cycle (hn : nReduce ≠ 0) (h : Live inputs nReduce j s)
    (hlt : s.coordinator.maps.completedCnt < inputs.length) :
    ∃ s', Reachable (System.step P) anyStep s s' ∧
      s'.coordinator.maps.completedCnt = s.coordinator.maps.completedCnt + 1 := by
  -- what is out is taken back
  obtain ⟨now, order, p, hp, hleases, hcnt⟩ := Coordinator.exists_inspect s.coordinator.maps
  set s₁ : System := { s with coordinator := { s.coordinator with maps := p } } with hs₁
  have hstep₁ : s.step P (.inspectMapTasks now order) = some s₁ := by
    simp [System.step, Coordinator.inspectMapTasks, hp, hs₁]
  obtain ⟨j₁, h₁⟩ := h.step hstep₁
  -- a worker that has not done anything yet gets a task
  obtain ⟨w, hw⟩ := h₁.idle
  have hidle := hw w le_rfl
  obtain ⟨c₂, t, i, input, hget, hmap, hcur, hcnt₂⟩ :=
    Coordinator.exists_getMapTask h₁.inv.tables h₁.mapTasks hleases (hcnt.trans_lt hlt)
  set s₂ : System := System.setWorker ⟨c₂, s.files, s.workers⟩ w (Worker.start t) with hs₂
  have hstep₂ : s₁.step P (.getTask w 0) = some s₂ := by
    simp only [System.step, System.getTask, hidle, hget, Option.map_some]
    rfl
  have hworker : s₂.workers w = .mapReading t [] := by
    simp [hs₂, setWorker, Worker.start, hmap.isMapTask]
  obtain ⟨j₂, h₂⟩ := h₁.step hstep₂
  -- it does the task on its own
  have htn : t.nReduce ≠ 0 := by
    rw [hmap.2]
    exact hn
  have hfilename : t.filenames.head? = some input.filename := by
    rw [hmap.2]
    rfl
  obtain ⟨⟨files, names⟩, hrun, hwritten⟩ := run_putPair P htn
    (P.mapf input.filename input.content) s₂.files
  have hmoves : Moves P w s₂ (s₂.place w files (.mapClosed t names)) := by
    have hprocess : processMapTask P t input.content s₂.files = some (files, names) := by
      rw [processMapTask, hfilename, Option.bind_some]
      exact hrun
    have hsolo := moves_processMapTask (s := s₂) (w := w) hfilename
      (h₂.given.present input (List.mem_of_getElem? hmap.1)) hprocess
    rwa [← hworker, place_self] at hsolo
  -- and reports it
  set req : Reply := ⟨t.index, t.txnID, names⟩ with hreq
  have hcurrent : (s₂.coordinator.maps.leases.lookup req.index).map Transaction.txnID =
      some req.txnID := by
    rw [Task.Current, if_pos hmap.isMapTask] at hcur
    exact hcur
  have hnamed : req.WellNamed := by
    refine ⟨hwritten.nodup, fun name hname => ?_⟩
    have hne := (hwritten.opened name).1 hname
    rw [hmap.pairsFor] at hne
    obtain ⟨r, hr, he⟩ := exists_mapFile (P := P) hne
    exact ⟨r, hr, by rw [he, hreq, hmap.index]⟩
  obtain ⟨c, hc⟩ := Coordinator.mapTaskDone_readable hcurrent
    (hnamed.readable ⟨i, hmap.index⟩)
  have hstep₃ : (s₂.place w files (.mapClosed t names)).step P (.report w) =
      some (System.setWorker ⟨c, files, (s₂.place w files (.mapClosed t names)).workers⟩ w .idle) := by
    simp [System.step, System.report, place, setWorker, hc, ← hreq]
  refine ⟨_, ((Reachable.init.step _ trivial hstep₁).step _ trivial hstep₂).trans
    (hmoves.reachable.step _ trivial hstep₃), ?_⟩
  obtain ⟨-, he⟩ | ⟨-, c₁, ⟨_, -, -, he⟩ | ⟨hc₁, rfl, -⟩⟩ := Coordinator.mapTaskDone_cases hc
  · cases he
  · cases he
  · obtain ⟨tasks, pool, rfl⟩ := Coordinator.addFiles_eq hc₁
    show c₂.maps.completedCnt + 1 = _
    rw [hcnt₂, ← hcnt]

/-- The files of a reduce task are there. -/
lemma Live.files_ne_none (h : Live inputs nReduce j s) {r : ℤ} (hname : name ∈ s.coordinator.filesOf r) :
    s.files name ≠ none := by
  rw [← h.same, h.journal.files, h.journal.mem_filesFor] at hname
  obtain ⟨req, hreq, hname, -⟩ := hname
  exact h.accepted req hreq name hname

/-- **One more reduce task can be completed** when the map tasks are. -/
lemma Live.reduce_cycle (h : Live inputs nReduce j s)
    (hmaps : s.coordinator.mapTasks.length ≤ s.coordinator.maps.completedCnt)
    (hlt : s.coordinator.reduces.completedCnt < s.coordinator.reduceTasks.keys.length) :
    ∃ s', Reachable (System.step P) anyStep s s' ∧
      s'.coordinator.mapTasks = s.coordinator.mapTasks ∧
      s'.coordinator.maps = s.coordinator.maps ∧
      s'.coordinator.reduceTasks = s.coordinator.reduceTasks ∧
      s'.coordinator.reduces.completedCnt = s.coordinator.reduces.completedCnt + 1 := by
  -- what is out is taken back
  obtain ⟨now, order, p, hp, hleases, hcnt⟩ := Coordinator.exists_inspect s.coordinator.reduces
  set c₁ : Coordinator := { s.coordinator with reduces := p } with hc₁
  set s₁ : System := { s with coordinator := c₁ } with hs₁
  have hstep₁ : s.step P (.inspectReduceTasks now order) = some s₁ := by
    simp [System.step, Coordinator.inspectReduceTasks, hp, hs₁, hc₁]
  obtain ⟨j₁, h₁⟩ := h.step hstep₁
  -- a worker that has not done anything yet asks for a map task first
  obtain ⟨w, hw⟩ := h₁.idle
  have hidle := hw w le_rfl
  set s₂ : System := s₁.setWorker w .asking with hs₂
  have hget : c₁.getMapTask 0 = some (c₁, none) := by
    unfold Coordinator.getMapTask
    rw [if_neg (by rintro ⟨-, hlt⟩; exact absurd hlt (not_lt.2 hmaps)), if_pos hmaps]
  have hstep₂ : s₁.step P (.getTask w 0) = some s₂ := by
    simp only [System.step, System.getTask, hidle]
    show (c₁.getMapTask 0).map _ = _
    rw [hget]
    rfl
  -- and then gets a reduce task
  obtain ⟨c₃, t, hget₃, hreduce, hfilenames, hcur, hmaps₃, hmapTasks₃, hreduceTasks₃, hcnt₃⟩ :=
    Coordinator.exists_getReduceTask h₁.inv.tables hmaps hleases (hcnt.trans_lt hlt)
  set s₃ : System := System.setWorker ⟨c₃, s.files, s₂.workers⟩ w (Worker.start t) with hs₃
  have hstep₃ : s₂.step P (.getTask w 0) = some s₃ := by
    have hasking : s₂.workers w = .asking := Function.update_self _ _ _
    simp only [System.step, System.getTask, hasking]
    show (c₁.getReduceTask 0).map _ = _
    rw [hget₃]
    rfl
  have hworker : s₃.workers w = .reduceReading t t.filenames [] [] := by
    simp [hs₃, setWorker, Worker.start, hreduce]
  -- it does the task on its own
  have hread : run (readFile P s₃.files) [] t.filenames =
      some (readPairs P s₃.files t.filenames) := by
    refine run_readFile fun name hname => ?_
    rw [hfilenames] at hname
    exact h₁.files_ne_none hname
  obtain ⟨files, hprocess⟩ : ∃ files, processReduceTask P s₃.files t = some files := by
    rw [processReduceTask, hread]
    exact ⟨_, rfl⟩
  have hmoves : Moves P w s₃ (s₃.place w files (.reduceClosed t)) := by
    have hsolo := moves_processReduceTask (s := s₃) (w := w) hprocess
    rwa [← hworker, place_self] at hsolo
  -- and reports it
  set req : Reply := ⟨t.index, t.txnID, []⟩ with hreq
  have hdone : c₃.reduceTaskDone req =
      ({ c₃ with reduces := c₃.reduces.complete t.index }, none) := by
    have hcurrent : (c₃.reduces.leases.lookup req.index).map Transaction.txnID = some req.txnID := by
      rwa [Task.Current, hreduce] at hcur
    rw [Coordinator.reduceTaskDone, if_neg (not_not.2 hcurrent)]
  have hstep₄ : (s₃.place w files (.reduceClosed t)).step P (.report w) =
      some (System.setWorker ⟨{ c₃ with reduces := c₃.reduces.complete t.index }, files,
        (s₃.place w files (.reduceClosed t)).workers⟩ w .idle) := by
    have hclosed : (s₃.place w files (.reduceClosed t)).workers w = .reduceClosed t :=
      Function.update_self _ _ _
    have hcoordinator : (s₃.place w files (.reduceClosed t)).coordinator = c₃ := rfl
    simp only [System.step, System.report, hclosed, hcoordinator, ← hreq, hdone]
    rfl
  have hreach : Reachable (System.step P) anyStep s s₃ :=
    ((Reachable.init.step _ trivial hstep₁).step _ trivial hstep₂).step _ trivial hstep₃
  refine ⟨_, hreach.trans (hmoves.reachable.step _ trivial hstep₄), hmapTasks₃, hmaps₃,
    hreduceTasks₃, ?_⟩
  show c₃.reduces.completedCnt + 1 = _
  rw [hcnt₃, ← hcnt]

/-- **The job can always be finished**, from every state of every run. -/
theorem can_finish (hn : 1 ≤ nReduce) (hgiven : Given inputs files)
    (h : Reachable (System.step P) anyStep (init (inputs.map Input.filename) nReduce files) s) :
    ∃ s', Reachable (System.step P) anyStep s s' ∧ s'.coordinator.done = true := by
  have hlive : ∃ j, Live inputs nReduce j s := exists_live_of_reachable ⟨_, live_init hgiven⟩ h
  -- first the map tasks
  have hmap : ∀ s, (∃ j, Live inputs nReduce j s) →
      ¬ inputs.length ≤ s.coordinator.maps.completedCnt →
      ∃ s', Reachable (System.step P) anyStep s s' ∧ (∃ j, Live inputs nReduce j s') ∧
        inputs.length - s'.coordinator.maps.completedCnt <
          inputs.length - s.coordinator.maps.completedCnt := by
    rintro s ⟨j, hj⟩ hnot
    obtain ⟨s', hr, hcnt⟩ := hj.map_cycle (P := P) (by omega) (not_le.1 hnot)
    exact ⟨s', hr, exists_live_of_reachable ⟨j, hj⟩ hr, by omega⟩
  obtain ⟨s₁, hr₁, ⟨j₁, h₁⟩, hmaps⟩ := Reachable.exists_goal _ hmap hlive
  rw [← h₁.inv.tables.length] at hmaps
  -- and then the reduce tasks
  have hreduce : ∀ s, ((∃ j, Live inputs nReduce j s) ∧
      s.coordinator.mapTasks.length ≤ s.coordinator.maps.completedCnt) →
      ¬ s.coordinator.reduceTasks.keys.length ≤ s.coordinator.reduces.completedCnt →
      ∃ s', Reachable (System.step P) anyStep s s' ∧ ((∃ j, Live inputs nReduce j s') ∧
        s'.coordinator.mapTasks.length ≤ s'.coordinator.maps.completedCnt) ∧
        s'.coordinator.reduceTasks.keys.length - s'.coordinator.reduces.completedCnt <
          s.coordinator.reduceTasks.keys.length - s.coordinator.reduces.completedCnt := by
    rintro s ⟨⟨j, hj⟩, hmaps⟩ hnot
    obtain ⟨s', hr, htasks, hmaps', hreduce, hcnt⟩ :=
      hj.reduce_cycle (P := P) hmaps (not_le.1 hnot)
    refine ⟨s', hr, ⟨exists_live_of_reachable ⟨j, hj⟩ hr, by rw [htasks, hmaps']; exact hmaps⟩, ?_⟩
    rw [hreduce]
    omega
  obtain ⟨s₂, hr₂, ⟨-, hmaps₂⟩, hreduces₂⟩ := Reachable.exists_goal _ hreduce ⟨⟨j₁, h₁⟩, hmaps⟩
  exact ⟨s₂, hr₁.trans hr₂, decide_eq_true ⟨hmaps₂, hreduces₂⟩⟩

/-- Worker `0` crashes in the middle of the only map task. -/
def crashed : List Event := [.getTask 0 0, .read 0 1, .read 0 1, .create 0, .crash 0]

theorem can_finish_crashed : ∃ s, Reachable (step wordCount) anyStep
    (init (oneText.map Input.filename) 1 oneTextFiles) s ∧ s.workers 0 = .exited ∧
    s.coordinator.maps.queue = [] ∧
    ∃ s', Reachable (step wordCount) anyStep s s' ∧ s'.coordinator.done = true := by
  have hrun : ((run (step wordCount) (init (oneText.map Input.filename) 1 oneTextFiles) crashed).map
      fun s => decide (s.workers 0 = .exited ∧ s.coordinator.maps.queue = [])) = some true := by
    decide +kernel
  obtain ⟨s, hs, hd⟩ := Option.map_eq_some_iff.1 hrun
  obtain ⟨hworker, hqueue⟩ := of_decide_eq_true hd
  have hreach := Reachable.init.run hs
  exact ⟨s, hreach, hworker, hqueue, can_finish le_rfl given_oneText hreach⟩

end System

end RaftLabs.MapReduce
