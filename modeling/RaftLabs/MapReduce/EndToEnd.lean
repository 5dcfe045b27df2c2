import RaftLabs.MapReduce.WorkerFiles

/-!
# The whole job

The coordinator, the workers and the files together, in every run in which files are created and
written under current transactions.  The completions that the coordinator has accepted are those of
complete files, reduce tasks read these and nothing else, and the output files of the completed ones
stay as they are.  Therefore the job computes what the sequential program computes, whatever has timed
out, crashed or been done twice (`done_eq_sequential`).
-/

namespace RaftLabs.MapReduce

open Lib

variable {P : Program} {inputs : List Input} {nReduce : ℤ} {name : GoString} {files : Files}
  {worker : Worker}

/-! ### The whole system -/

/-- What `GetMapTask` hands out. -/
lemma exists_isMap {c : Coordinator} {k : ℤ} {t : Task}
    (hc : c.mapTasks = (Coordinator.make (inputs.map Input.filename) nReduce).mapTasks)
    (ht : c.mapTask k = some t) (txnID : TransactionID) :
    ∃ i input, IsMap inputs nReduce (Coordinator.cloneTask t txnID) i input ∧ k = i := by
  unfold Coordinator.mapTask at ht
  split_ifs at ht with hk
  rw [hc] at ht
  simp only [Coordinator.make, List.getElem?_mapIdx, List.getElem?_map, Option.map_map,
    Option.map_eq_some_iff] at ht
  obtain ⟨input, hinput, rfl⟩ := ht
  exact ⟨_, input, ⟨hinput, rfl⟩, (Int.toNat_of_nonneg hk).symm⟩

/-- The input files are there, and none of them has the name of a file that a worker writes. -/
structure Given (inputs : List Input) (files : Files) : Prop where
  present : ∀ input ∈ inputs, files input.filename = some input.content
  notMap : ∀ input ∈ inputs, ∀ i r : ℕ, input.filename ≠ mapFile i r
  notOut : ∀ input ∈ inputs, ∀ r : ℤ, input.filename ≠ outFile r

/-- **What holds in every fenced run**: the accepted completions and the completed reduce tasks have
left the right files. -/
structure Sound (P : Program) (inputs : List Input) (nReduce : ℤ) (j : Journal) (s : System) :
    Prop where
  journal : j.Inv inputs.length
  same : j.job.coordinator = s.coordinator
  mapTasks : s.coordinator.mapTasks =
    (Coordinator.make (inputs.map Input.filename) nReduce).mapTasks
  given : Given inputs s.files
  handed : ∀ w t, (s.workers w).task = some t → t ∈ j.job.handed
  distinct : ∀ w w' t t', (s.workers w).task = some t → (s.workers w').task = some t' →
    t.txnID = t'.txnID → w = w'
  fits : ∀ w, Fits P inputs nReduce s.coordinator s.files (s.workers w)
  mapped : ∀ req ∈ j.accepted,
    (∃ i input, inputs[i]? = some input ∧ IsReport P nReduce i input req) ∧
    ∀ name ∈ req.filenames,
      s.files name = some ((contents P inputs nReduce name).flatMap P.encode)
  reduced : ∀ r, s.coordinator.reduces.status r = some .completed →
    ∃ t ∈ j.job.handed, t.isMapTask = false ∧ t.index = r ∧
      s.files (outFile r) = some (outLines P inputs nReduce t).flatten

namespace Sound

variable {j j' : Journal} {s s' : System} {w : ℕ}

lemma tables (h : Sound P inputs nReduce j s) : s.coordinator.Tables inputs.length :=
  h.same ▸ h.journal.job.tables

/-- A property of the workers when one of them moves. -/
lemma forall_update {workers : ℕ → Worker} {Q : ℕ → Worker → Prop} (hw : Q w worker)
    (hother : ∀ v ≠ w, Q v (workers v)) (v : ℕ) : Q v (Function.update workers w worker v) := by
  by_cases hv : v = w
  · subst hv
    rw [Function.update_self]
    exact hw
  · rw [Function.update_of_ne hv]
    exact hother v hv

/-- The tasks of the workers stay distinct when worker `w` takes up task `t`. -/
lemma distinct_update (h : Sound P inputs nReduce j s)
    (hnew : ∀ t, worker.task = some t → ∀ v ≠ w, ∀ t', (s.workers v).task = some t' →
      t.txnID ≠ t'.txnID) :
    ∀ v v' t t', (Function.update s.workers w worker v).task = some t →
      (Function.update s.workers w worker v').task = some t' → t.txnID = t'.txnID → v = v' := by
  intro v v' t t' hv hv' he
  by_cases hvw : v = w <;> by_cases hvw' : v' = w
  · exact hvw.trans hvw'.symm
  · subst hvw
    rw [Function.update_self] at hv
    rw [Function.update_of_ne hvw'] at hv'
    exact absurd he (hnew t hv v' hvw' t' hv')
  · subst hvw'
    rw [Function.update_self] at hv'
    rw [Function.update_of_ne hvw] at hv
    exact absurd he.symm (hnew t' hv' v hvw t hv)
  · rw [Function.update_of_ne hvw] at hv
    rw [Function.update_of_ne hvw'] at hv'
    exact h.distinct v v' t t' hv hv' he

/-- The task that a worker has keeps it apart from the others. -/
lemma txnID_ne (h : Sound P inputs nReduce j s)
    (htask : worker.task = (s.workers w).task ∨ worker.task = none) :
    ∀ t, worker.task = some t → ∀ v ≠ w, ∀ t', (s.workers v).task = some t' →
      t.txnID ≠ t'.txnID := by
  intro t ht v hv t' ht' he
  rcases htask with htask | htask
  · exact hv (h.distinct v w t' t ht' (htask ▸ ht) he.symm)
  · rw [ht] at htask
    cases htask

/-- A worker moves on, and nothing else happens. -/
lemma move (h : Sound P inputs nReduce j s)
    (hfits : Fits P inputs nReduce s.coordinator s.files worker)
    (htask : worker.task = (s.workers w).task ∨ worker.task = none) :
    Sound P inputs nReduce j (s.setWorker w worker) where
  journal := h.journal
  same := h.same
  mapTasks := h.mapTasks
  given := h.given
  handed := by
    refine forall_update (Q := fun _ worker => ∀ t, worker.task = some t → t ∈ j.job.handed)
      (fun t ht => ?_) fun v _ => h.handed v
    rcases htask with htask | htask
    · exact h.handed w t (htask ▸ ht)
    · rw [ht] at htask
      cases htask
  distinct := h.distinct_update (h.txnID_ne htask)
  fits := forall_update (Q := fun _ => Fits P inputs nReduce s.coordinator s.files) hfits
    fun v _ => h.fits v
  mapped := h.mapped
  reduced := h.reduced

/-- Two tasks with current transactions that share a file are the same. -/
lemma eq_of_owns (h : Sound P inputs nReduce j s) {v : ℕ} {t t' : Task}
    (ht : (s.workers w).task = some t) (ht' : (s.workers v).task = some t')
    (hcur : t.Current s.coordinator) (hcur' : t'.Current s.coordinator) (hname : t.Owns name)
    (hname' : t'.Owns name) : v = w := by
  have hsame : ∀ {p : Pool ℤ Transaction}, t'.index = t.index →
      (p.leases.lookup t.index).map Transaction.txnID = some t.txnID →
      (p.leases.lookup t'.index).map Transaction.txnID = some t'.txnID → v = w := by
    intro p he hl hl'
    rw [he] at hl'
    exact h.distinct v w t' t ht' ht (Option.some.inj (hl'.symm.trans hl))
  unfold Task.Owns at hname hname'
  unfold Task.Current at hcur hcur'
  cases hm : t.isMapTask <;> cases hm' : t'.isMapTask <;>
    simp only [hm, hm', if_true, Bool.false_eq_true, if_false] at hname hname' hcur hcur'
  · exact hsame (outFile_injective (hname'.symm.trans hname)) hcur hcur'
  · obtain ⟨i, input, hi⟩ := (h.fits v).isMap ht' hm'
    obtain ⟨r, hr⟩ := hname'
    rw [hi.index, hname] at hr
    exact absurd hr.symm (mapFile_ne_outFile i r _)
  · obtain ⟨i, input, hi⟩ := (h.fits w).isMap ht hm
    obtain ⟨r, hr⟩ := hname
    rw [hi.index, hname'] at hr
    exact absurd hr.symm (mapFile_ne_outFile i r _)
  · obtain ⟨i, input, hi⟩ := (h.fits w).isMap ht hm
    obtain ⟨i', input', hi'⟩ := (h.fits v).isMap ht' hm'
    obtain ⟨r, hr⟩ := hname
    obtain ⟨r', hr'⟩ := hname'
    rw [hi.index] at hr
    rw [hi'.index, hr] at hr'
    exact hsame (by rw [hi.index, hi'.index, mapFile_injective hr']) hcur hcur'

/-- A task with a current transaction is not completed, so that its files are not those of one that
is. -/
lemma owns_ne (h : Sound P inputs nReduce j s) {t : Task} (ht : (s.workers w).task = some t)
    (hcur : t.Current s.coordinator) (howns : t.Owns name) :
    (∀ i r : ℕ, s.coordinator.maps.status i = some .completed → name ≠ mapFile i r) ∧
    (∀ r : ℤ, s.coordinator.reduces.status r = some .completed → name ≠ outFile r) ∧
    ∀ input ∈ inputs, name ≠ input.filename := by
  unfold Task.Owns at howns
  unfold Task.Current at hcur
  cases hm : t.isMapTask <;> simp only [hm, if_true, Bool.false_eq_true, if_false] at howns hcur
  · subst howns
    refine ⟨fun i r _ => (mapFile_ne_outFile i r _).symm, fun r hr he => ?_, fun input hin he => ?_⟩
    · rw [← outFile_injective he] at hr
      exact h.tables.reduces.not_completed_of_lookup hcur hr
    · exact h.given.notOut input hin _ he.symm
  · obtain ⟨i, input, hi⟩ := (h.fits w).isMap ht hm
    obtain ⟨r, rfl⟩ := howns
    rw [hi.index]
    refine ⟨fun i' r' hi' he => ?_, fun r' _ => mapFile_ne_outFile i r r', fun input hin he => ?_⟩
    · rw [← mapFile_injective he, ← hi.index] at hi'
      exact h.tables.maps.not_completed_of_lookup hcur hi'
    · exact h.given.notMap input hin _ _ he.symm

/-- A worker creates or writes a file under a current transaction. -/
lemma write (h : Sound P inputs nReduce j s) {t : Task}
    (ht : (s.workers w).task = some t) (hcur : t.Current s.coordinator) (howns : t.Owns name)
    {files : Files} (hfiles : ∀ x ≠ name, files x = s.files x)
    (hfits : Fits P inputs nReduce s.coordinator files worker)
    (htask : worker.task = (s.workers w).task) :
    Sound P inputs nReduce j (System.setWorker ⟨s.coordinator, files, s.workers⟩ w worker) := by
  obtain ⟨hmap, hout, hinput⟩ := h.owns_ne ht hcur howns
  refine ⟨h.journal, h.same, h.mapTasks, ⟨fun input hin => ?_, h.given.notMap, h.given.notOut⟩, ?_,
    h.distinct_update (h.txnID_ne (Or.inl htask)), ?_, fun req hreq => ?_, fun r hr => ?_⟩
  · exact (hfiles _ (hinput input hin).symm).trans (h.given.present input hin)
  · exact forall_update (Q := fun _ worker => ∀ t, worker.task = some t → t ∈ j.job.handed)
      (fun t ht => h.handed w t (htask ▸ ht)) fun v _ => h.handed v
  · refine forall_update (Q := fun _ => Fits P inputs nReduce s.coordinator files) hfits
      fun v hv => (h.fits v).mono fun t' ht' hcur' => ⟨hcur', fun x hx => hfiles x ?_⟩
    rintro rfl
    exact hv (h.eq_of_owns ht ht' hcur hcur' howns hx)
  · obtain ⟨⟨i, input, hi, hreport⟩, hcontent⟩ := h.mapped req hreq
    refine ⟨⟨i, input, hi, hreport⟩, fun x hx => (hfiles x ?_).trans (hcontent x hx)⟩
    rintro rfl
    obtain ⟨r, -, he⟩ := exists_mapFile ((hreport.2 x).1 hx)
    refine hmap i r ?_ he
    rw [← h.same, ← hreport.1]
    exact h.journal.completed req hreq
  · obtain ⟨t', ht', hm, hindex, hfile⟩ := h.reduced r hr
    exact ⟨t', ht', hm, hindex, (hfiles _ (hout r hr).symm).trans hfile⟩

/-- The coordinator does something, and answers a worker. -/
lemma coordinate (h : Sound P inputs nReduce j s) {e : JobEvent} (hs : j.step e = some j')
    (hok : j.Reports e) (hadv : s.coordinator.Advances inputs.length j'.job.coordinator)
    (hfits : Fits P inputs nReduce j'.job.coordinator s.files worker)
    (htask : ∀ t, worker.task = some t →
      (s.workers w).task = some t ∨ t ∈ j'.job.handed ∧ t.txnID = s.coordinator.nextTxnID)
    (hmapped : ∀ req ∈ j'.accepted, req ∈ j.accepted ∨
      (∃ i input, inputs[i]? = some input ∧ IsReport P nReduce i input req) ∧
      ∀ name ∈ req.filenames,
        s.files name = some ((contents P inputs nReduce name).flatMap P.encode))
    (hreduced : ∀ r, j'.job.coordinator.reduces.status r = some .completed →
      s.coordinator.reduces.status r = some .completed ∨
      ∃ t ∈ j.job.handed, t.isMapTask = false ∧ t.index = r ∧
        s.files (outFile r) = some (outLines P inputs nReduce t).flatten) :
    Sound P inputs nReduce j'
      (System.setWorker ⟨j'.job.coordinator, s.files, s.workers⟩ w worker) := by
  obtain ⟨job, hjob, rfl⟩ := Option.map_eq_some_iff.1 hs
  have hsub : j.job.handed ⊆ job.handed := Job.handed_subset_of_step hjob
  have hbelow : ∀ v t, (s.workers v).task = some t → t.txnID < s.coordinator.nextTxnID := by
    intro v t ht
    rw [← h.same]
    exact h.journal.job.below t (h.handed v t ht)
  refine ⟨h.journal.step hok hs, rfl, hadv.mapTasks.trans h.mapTasks, h.given, ?_, ?_, ?_,
    fun req hreq => ?_, fun r hr => ?_⟩
  · refine forall_update (Q := fun _ worker => ∀ t, worker.task = some t → t ∈ job.handed)
      (fun t ht => ?_) fun v _ t ht => hsub (h.handed v t ht)
    rcases htask t ht with ht | ⟨ht, -⟩
    · exact hsub (h.handed w t ht)
    · exact ht
  · refine h.distinct_update fun t ht v hv t' ht' he => ?_
    rcases htask t ht with ht | ⟨-, hnew⟩
    · exact hv (h.distinct v w t' t ht' ht he.symm)
    · exact (hbelow v t' ht').ne (he.symm.trans hnew)
  · refine forall_update (Q := fun _ => Fits P inputs nReduce job.coordinator s.files) hfits
      fun v _ => (h.fits v).mono fun t ht hcur => ⟨?_, fun _ _ => rfl⟩
    rw [← h.same]
    exact Job.current_of_step h.journal.job hjob (h.handed v t ht) hcur
  · rcases hmapped req hreq with hreq | hreq
    · exact h.mapped req hreq
    · exact hreq
  · rcases hreduced r hr with hr | ⟨t, ht, hrest⟩
    · obtain ⟨t, ht, hrest⟩ := h.reduced r hr
      exact ⟨t, hsub ht, hrest⟩
    · exact ⟨t, hsub ht, hrest⟩

/-- The same where no completion is accepted. -/
lemma coordinate_quiet (h : Sound P inputs nReduce j s) {e : JobEvent} {job : Job}
    (hs : j.job.step e = some job) (hquiet : j.job.coordinator.accepts e = [])
    (hok : j.Reports e) (hadv : s.coordinator.Advances inputs.length job.coordinator)
    (hfits : Fits P inputs nReduce job.coordinator s.files worker)
    (htask : ∀ t, worker.task = some t →
      (s.workers w).task = some t ∨ t ∈ job.handed ∧ t.txnID = s.coordinator.nextTxnID)
    (hreduce : ∀ req, e ≠ .reduceTaskDone req) :
    ∃ j', Sound P inputs nReduce j'
      (System.setWorker ⟨job.coordinator, s.files, s.workers⟩ w worker) := by
  have hstep : j.step e = some ⟨job, j.accepted⟩ := by
    simp [Journal.step, hs, hquiet]
  refine ⟨_, h.coordinate hstep hok hadv hfits htask (fun _ => Or.inl) fun r hr => Or.inl ?_⟩
  obtain hr | ⟨req, he, -⟩ := Job.completed_of_step hs hr
  · exact h.same ▸ hr
  · exact absurd he (hreduce req)

/-- A worker asks for a task. -/
lemma getTask (h : Sound P inputs nReduce j s) {now : ℕ} (hs : s.getTask w now = some s') :
    ∃ j', Sound P inputs nReduce j' s' := by
  unfold System.getTask at hs
  split at hs
  · obtain ⟨⟨c, task⟩, hc, rfl⟩ := Option.map_eq_some_iff.1 hs
    have hjob : j.job.step (.getMapTask now) = some (j.job.hand (c, task)) := by
      simp [Job.step, h.same, hc]
    have hadv := h.tables.getMapTask hc
    obtain ⟨-, rfl, -⟩ | ⟨k, p, t, -, -, -, rfl, htask⟩ := Coordinator.getMapTask_cases hc
    · exact h.coordinate_quiet hjob rfl trivial hadv trivial (by rintro _ ⟨⟩) (by simp)
    · obtain ⟨i, input, hi, -⟩ := exists_isMap h.mapTasks htask s.coordinator.nextTxnID
      obtain ⟨hfits, hstart⟩ := fits_start P c s.files fun _ => ⟨i, input, hi⟩
      refine h.coordinate_quiet hjob rfl trivial hadv hfits (fun t' ht' => Or.inr ?_) (by simp)
      cases hstart.symm.trans ht'
      exact ⟨List.mem_append_right _ (List.mem_singleton_self _), rfl⟩
  · obtain ⟨⟨c, task⟩, hc, rfl⟩ := Option.map_eq_some_iff.1 hs
    have hjob : j.job.step (.getReduceTask now) = some (j.job.hand (c, task)) := by
      simp [Job.step, h.same, hc]
    have hadv := h.tables.getReduceTask hc
    obtain ⟨-, ⟨-, rfl⟩ | ⟨k, p, t, -, htask, -, rfl⟩⟩ := Coordinator.getReduceTask_cases hc
    · exact h.coordinate_quiet hjob rfl trivial hadv trivial (by rintro _ ⟨⟩) (by simp)
    · have hmap : (Coordinator.cloneTask t s.coordinator.nextTxnID).isMapTask = true →
          ∃ i input, IsMap inputs nReduce (Coordinator.cloneTask t s.coordinator.nextTxnID) i input :=
        fun hm => absurd (hm.symm.trans (h.tables.isReduce k t htask).1) (by simp)
      obtain ⟨hfits, hstart⟩ := fits_start P c s.files hmap
      refine h.coordinate_quiet hjob rfl trivial hadv hfits (fun t' ht' => Or.inr ?_) (by simp)
      cases hstart.symm.trans ht'
      exact ⟨List.mem_append_right _ (List.mem_singleton_self _), rfl⟩
  · cases hs

/-- A worker reports. -/
lemma report (h : Sound P inputs nReduce j s) (hs : s.report w = some s') :
    ∃ j', Sound P inputs nReduce j' s' := by
  have hend : ∀ {c : Coordinator} (err : Option Err),
      Fits P inputs nReduce c s.files (if err = none then Worker.idle else Worker.exited) ∧
      ∀ t, (if err = none then Worker.idle else Worker.exited).task ≠ some t := by
    intro c err
    split_ifs <;> exact ⟨trivial, by rintro _ ⟨⟩⟩
  have hfits := h.fits w
  unfold System.report at hs
  split at hs
  · rename_i t names hw
    rw [hw] at hfits
    obtain ⟨i, input, ht, hnodup, hnames, hfiles⟩ := hfits
    obtain ⟨⟨c, err⟩, hc, rfl⟩ := Option.map_eq_some_iff.1 hs
    set req : Reply := ⟨t.index, t.txnID, names⟩ with hreq
    have hnamed : req.WellNamed := by
      refine ⟨hnodup, fun name hname => ?_⟩
      obtain ⟨r, hr, he⟩ := exists_mapFile ((hnames name).1 hname)
      exact ⟨r, hr, by rw [he, hreq, ht.index]⟩
    have hjob : j.job.step (.mapTaskDone req) = some ⟨c, j.job.handed⟩ := by
      simp [Job.step, h.same, hc]
    have hstep : j.step (.mapTaskDone req) =
        some ⟨⟨c, j.job.handed⟩, j.accepted ++ s.coordinator.accepts (.mapTaskDone req)⟩ := by
      simp [Journal.step, hjob, h.same]
    refine ⟨_, h.coordinate hstep hnamed (h.tables.mapTaskDone hc) (hend err).1
      (fun t ht => absurd ht ((hend (c := c) err).2 t)) (fun req' hreq' => ?_) fun r hr => ?_⟩
    · -- an accepted completion is one under the current transaction
      rcases List.mem_append.1 hreq' with hreq' | hreq'
      · exact Or.inl hreq'
      right
      cases err with
      | some err => simp [Coordinator.accepts, hc] at hreq'
      | none =>
        simp only [Coordinator.accepts, hc, List.mem_singleton] at hreq'
        subst hreq'
        have hcur : t.Current s.coordinator := by
          obtain ⟨-, he⟩ | ⟨⟨txn, hl, htxn⟩, -⟩ := Coordinator.mapTaskDone_cases hc
          · cases he
          · rw [Task.Current, if_pos ht.isMapTask]
            exact Option.map_eq_some_iff.2 ⟨txn, hl, htxn⟩
        refine ⟨⟨i, input, ht.1, ht.index, hnames⟩, fun name hname => ?_⟩
        rw [contents_eq ht.1 ((hnames name).1 hname)]
        exact hfiles hcur name hname
    · obtain hr | ⟨_, he, -⟩ := Job.completed_of_step hjob hr
      · exact Or.inl (h.same ▸ hr)
      · cases he
  · rename_i t hw
    rw [hw] at hfits
    obtain ⟨ht, hfile⟩ := hfits
    cases hs
    set req : Reply := ⟨t.index, t.txnID, []⟩ with hreq
    set c := (s.coordinator.reduceTaskDone req).1 with hc
    have hjob : j.job.step (.reduceTaskDone req) = some ⟨c, j.job.handed⟩ := by
      simp [Job.step, h.same, hc]
    have hstep : j.step (.reduceTaskDone req) = some ⟨⟨c, j.job.handed⟩, j.accepted⟩ := by
      simp [Journal.step, hjob, Coordinator.accepts]
    refine ⟨_, h.coordinate hstep trivial (h.tables.reduceTaskDone req) (hend _).1
      (fun t ht => absurd ht ((hend (c := c) _).2 t)) (fun _ => Or.inl) fun r hr => ?_⟩
    obtain hr | ⟨req', he, hindex, hcur⟩ := Job.completed_of_step hjob hr
    · exact Or.inl (h.same ▸ hr)
    · cases he
      refine Or.inr ⟨t, h.handed w t (by rw [hw]; rfl), ht, hindex, ?_⟩
      rw [← hindex]
      refine hfile ?_
      rw [Task.Current, ht]
      rw [h.same, ← hindex] at hcur
      exact hcur
  · cases hs

/-- The files of a reduce task are complete when it is out. -/
lemma mapped_of_task (h : Sound P inputs nReduce j s) {t : Task} (ht : (s.workers w).task = some t)
    (hr : t.isMapTask = false) (hname : name ∈ t.filenames) :
    s.files name = some ((contents P inputs nReduce name).flatMap P.encode) := by
  rw [(h.journal.handed t (h.handed w t ht) hr).2, h.journal.files, h.journal.mem_filesFor] at hname
  obtain ⟨req, hreq, hname, -⟩ := hname
  exact (h.mapped req hreq).2 name hname

/-- An inspection. -/
lemma inspect (h : Sound P inputs nReduce j s) {e : JobEvent} {c : Coordinator}
    (hs : j.job.step e = some { j.job with coordinator := c })
    (hadv : s.coordinator.Advances inputs.length c) (hquiet : j.job.coordinator.accepts e = [])
    (hok : j.Reports e) (hreduce : ∀ req, e ≠ .reduceTaskDone req) :
    ∃ j', Sound P inputs nReduce j' { s with coordinator := c } := by
  have hfits : Fits P inputs nReduce c s.files (s.workers 0) := by
    refine (h.fits 0).mono fun t ht hcur => ⟨?_, fun _ _ => rfl⟩
    rw [← h.same]
    exact Job.current_of_step h.journal.job hs (h.handed 0 t ht) hcur
  obtain ⟨j', h'⟩ := h.coordinate_quiet hs hquiet hok hadv hfits (fun t ht => Or.inl ht) hreduce
  rw [System.setWorker, Function.update_eq_self] at h'
  exact ⟨j', h'⟩

/-- **One step of a fenced run.** -/
theorem step (hP : P.Lawful) (hn : nReduce ≠ 0) (h : Sound P inputs nReduce j s) {e : Event}
    (hok : s.Fenced e) (hs : s.step P e = some s') : ∃ j', Sound P inputs nReduce j' s' := by
  cases e with
  | getTask w now => exact h.getTask hs
  | read w size =>
    obtain ⟨worker, hw, rfl⟩ := Option.map_eq_some_iff.1 hs
    obtain ⟨hfits, htask⟩ := (h.fits w).read hP h.given.present
      (fun t ht hr name hname => h.mapped_of_task ht hr hname) hw
    exact ⟨j, h.move hfits htask⟩
  | create w =>
    obtain ⟨⟨name, worker⟩, hw, rfl⟩ := Option.map_eq_some_iff.1 hs
    obtain ⟨t, ht, hcur, howns⟩ := (h.fits w).owns (Worker.writes_of_create hw).1 hok
    obtain ⟨hfits, htask⟩ := (h.fits w).create hw
    exact ⟨j, h.write ht hcur howns (fun x hx => Function.update_of_ne hx _ _) hfits htask⟩
  | write w =>
    obtain ⟨⟨name, offset, bytes, worker⟩, hw, rfl⟩ := Option.map_eq_some_iff.1 hs
    obtain ⟨t, ht, hcur, howns⟩ := (h.fits w).owns (Worker.writes_of_write hw).1 hok
    obtain ⟨hfits, htask⟩ := (h.fits w).write hn (fun t' ht' => by
      cases ht.symm.trans ht'
      exact hcur) hw
    exact ⟨j, h.write ht hcur howns (fun x hx => Function.update_of_ne hx _ _) hfits htask⟩
  | close w =>
    obtain ⟨worker, hw, rfl⟩ := Option.map_eq_some_iff.1 hs
    obtain ⟨hfits, htask⟩ := (h.fits w).close hw
    exact ⟨j, h.move hfits (Or.inl htask)⟩
  | report w => exact h.report hs
  | crash w =>
    cases hs
    exact ⟨j, h.move trivial (Or.inr rfl)⟩
  | inspectMapTasks now order =>
    obtain ⟨c, hc, rfl⟩ := Option.map_eq_some_iff.1 hs
    have hjob : j.job.step (.inspectMapTasks now order) = some { j.job with coordinator := c } := by
      simp [Job.step, h.same, hc]
    exact h.inspect hjob (h.tables.inspectMapTasks hc) rfl trivial (by simp)
  | inspectReduceTasks now order =>
    obtain ⟨c, hc, rfl⟩ := Option.map_eq_some_iff.1 hs
    have hjob : j.job.step (.inspectReduceTasks now order) =
        some { j.job with coordinator := c } := by
      simp [Job.step, h.same, hc]
    exact h.inspect hjob (h.tables.inspectReduceTasks hc) rfl trivial (by simp)

lemma init (hgiven : Given inputs files) :
    Sound P inputs nReduce (Journal.init (inputs.map Input.filename) nReduce)
      (System.init (inputs.map Input.filename) nReduce files) where
  journal := by simpa using Journal.inv_init (inputs.map Input.filename) nReduce
  same := rfl
  mapTasks := rfl
  given := hgiven
  handed _ _ h := nomatch h
  distinct _ _ _ _ h := nomatch h
  fits _ := trivial
  mapped _ h := absurd h List.not_mem_nil
  reduced r h := nomatch h

end Sound

/-! ### The job is done -/

namespace Sound

variable {j : Journal} {s : System}

/-- When all map tasks are completed, the map phase has left what it leaves when every task is done
once. -/
lemma progress (h : Sound P inputs nReduce j s)
    (hdone : inputs.length ≤ s.coordinator.maps.completedCnt) :
    Progress P inputs nReduce [] (s.files, j) where
  inv := h.journal
  distinct := List.nodup_nil
  isTask _ ht := absurd ht List.not_mem_nil
  current _ ht := absurd ht List.not_mem_nil
  finished i input hi _ := by
    have hmem : (i : ℤ) ∈ j.accepted.map Reply.index := by
      rw [(h.journal.accepted_perm (h.same ▸ hdone)).mem_iff]
      exact List.mem_map.2 ⟨i, List.mem_range.2 (List.getElem?_eq_some_iff.1 hi).1, rfl⟩
    obtain ⟨req, hreq, hindex⟩ := List.mem_map.1 hmem
    refine ⟨fun name hname => ?_, req, hreq, hindex⟩
    obtain ⟨⟨i', input', hi', hindex', hnames⟩, hcontent⟩ := h.mapped req hreq
    obtain rfl : i = i' := by exact_mod_cast hindex.symm.trans hindex'
    obtain rfl : input = input' := Option.some.inj (hi.symm.trans hi')
    rw [← contents_eq hi hname]
    exact hcontent name ((hnames name).2 hname)
  reports req hreq := (h.mapped req hreq).1

/-- What a completed reduce task has printed. -/
lemma output (hP : P.Lawful) (h : Sound P inputs nReduce j s) {r : ℤ}
    (hr : s.coordinator.reduces.status r = some .completed) :
    s.files (outFile r) =
      some ((printed P s.files (s.coordinator.reduceTask r)).flatMap line) := by
  obtain ⟨t, ht, hreduce, rfl, hfile⟩ := h.reduced r hr
  have hfilenames : t.filenames = s.coordinator.filesOf t.index :=
    h.same ▸ (h.journal.handed t ht hreduce).2
  have hread : readPairs P s.files t.filenames =
      t.filenames.flatMap (contents P inputs nReduce) := by
    refine List.flatMap_congr fun name hname => ?_
    rw [hfilenames, ← h.same, h.journal.files, h.journal.mem_filesFor] at hname
    obtain ⟨req, hreq, hname, -⟩ := hname
    rw [(h.mapped req hreq).2 name hname, Option.getD_some, decode_contents hP]
  have hprinted : printed P s.files (s.coordinator.reduceTask t.index) =
      reduceLoop P (P.sort (t.filenames.flatMap (contents P inputs nReduce))) 0 := by
    rw [printed, ← hread, hfilenames]
    rfl
  rw [hfile, hprinted, outLines, outputLines_eq]
  exact congrArg some List.flatMap_def.symm

end Sound

namespace System

variable {s : System}

lemma exists_sound (hP : P.Lawful) (hn : nReduce ≠ 0) (hgiven : Given inputs files)
    (h : Reachable (step P) Fenced (init (inputs.map Input.filename) nReduce files) s) :
    ∃ j, Sound P inputs nReduce j s :=
  Reachable.invariant (P := fun s => ∃ j, Sound P inputs nReduce j s) ⟨_, .init hgiven⟩
    (fun _ _ _ _ ⟨_, h⟩ hok hs => h.step hP hn hok hs) h

/-- **Whenever the job is done, the output is that of the sequential program**, for any number of
workers, any interleaving, any timeouts and crashes, as long as workers write under current
transactions: the output files are there, together they hold the lines of the sequential output, and
no key is printed twice. -/
theorem done_eq_sequential (hP : P.Lawful) (hn : 1 ≤ nReduce) (hgiven : Given inputs files)
    (h : Reachable (step P) Fenced (init (inputs.map Input.filename) nReduce files) s)
    (hdone : s.coordinator.done = true) :
    ∃ records : ℤ → List (GoString × GoString),
      (∀ r ∈ s.coordinator.reduceTasks,
        s.files (outFile r) = some ((records r).flatMap line)) ∧
      mrsequential P inputs files (outFile 0) = some ((sequential P inputs).flatMap line) ∧
      (s.coordinator.reduceTasks.keys.flatMap records).Perm (sequential P inputs) ∧
      (s.coordinator.reduceTasks.keys.flatMap fun r => linesOf ((records r).flatMap line)).Perm
        (linesOf ((sequential P inputs).flatMap line)) ∧
      ((s.coordinator.reduceTasks.keys.flatMap records).map Prod.fst).Nodup := by
  obtain ⟨j, hsound⟩ := exists_sound hP (by omega) hgiven h
  obtain ⟨hmaps, hreduces⟩ := of_decide_eq_true hdone
  rw [hsound.tables.length] at hmaps
  have hprogress := hsound.progress hmaps
  have hcovers : Covers j.job.coordinator
      (s.coordinator.reduceTasks.keys.map s.coordinator.reduceTask) := by
    rw [hsound.same]
    exact s.coordinator.covers_keys
  have hperm := hprogress.printed_perm hP hcovers
  rw [List.flatMap_map] at hperm
  refine ⟨fun r => printed P s.files (s.coordinator.reduceTask r), fun r hr => ?_, ?_, hperm, ?_, ?_⟩
  · refine hsound.output hP (hsound.tables.reduces.all_completed ?_ r
      (Coordinator.mem_reduceIndices.2 hr))
    rw [Coordinator.reduceIndices,
      List.toFinset_card_of_nodup s.coordinator.reduceTasks.keys_nodup]
    exact hreduces
  · rw [mrsequential, Files.print_eq, Function.update_self]
  · simp only [linesOf_flatMap_line]
    rw [← List.flatMap_assoc]
    exact hperm.flatMap_right _
  · rw [(hperm.map Prod.fst).nodup_iff]
    exact nodup_keys hP _

instance decidableCurrent (c : Coordinator) : DecidablePred (Worker.Current c)
  | .mapping task _ _ =>
    decEq ((c.maps.leases.lookup task.index).map Transaction.txnID) (some task.txnID)
  | .reduceSorted task _ =>
    decEq ((c.reduces.leases.lookup task.index).map Transaction.txnID) (some task.txnID)
  | .reducing task _ _ =>
    decEq ((c.reduces.leases.lookup task.index).map Transaction.txnID) (some task.txnID)
  | .idle => instDecidableTrue
  | .asking => instDecidableTrue
  | .mapReading _ _ => instDecidableTrue
  | .mapClosed _ _ => instDecidableTrue
  | .reduceReading _ _ _ _ => instDecidableTrue
  | .reduceClosed _ => instDecidableTrue
  | .exited => instDecidableTrue

instance (s : System) : DecidablePred s.Fenced
  | .create w => decidableCurrent s.coordinator (s.workers w)
  | .write w => decidableCurrent s.coordinator (s.workers w)
  | .getTask _ _ => instDecidableTrue
  | .read _ _ => instDecidableTrue
  | .close _ => instDecidableTrue
  | .report _ => instDecidableTrue
  | .crash _ => instDecidableTrue
  | .inspectMapTasks _ _ => instDecidableTrue
  | .inspectReduceTasks _ _ => instDecidableTrue

/-- One text. -/
def oneText : List Input := [⟨[120], [97]⟩]

def oneTextFiles : Files := fun name => if name = [120] then some [97] else none

lemma given_oneText : Given oneText oneTextFiles := by
  refine ⟨fun input hin => ?_, fun input hin i r he => ?_, fun input hin r he => ?_⟩ <;>
    obtain rfl := List.mem_singleton.1 hin
  · rfl
  · exact absurd (congrArg List.head? he) (by simp [mapFile])
  · exact absurd (congrArg List.head? he) (by simp [outFile])

/-- Worker `0` is too slow, and its map task is done by worker `1`, which also does the reduce
task. -/
def handedOver : List Event :=
  [.getTask 0 0, .read 0 1, .inspectMapTasks (fun _ => 11 * 10 ^ 9) [0],
    .getTask 1 (11 * 10 ^ 9), .read 1 1, .read 0 1, .read 1 1, .create 1, .write 1, .close 1, .report 1,
    .getTask 1 (11 * 10 ^ 9), .getTask 1 (11 * 10 ^ 9), .read 1 100, .read 1 1, .read 1 1, .create 1,
    .write 1, .close 1, .report 1]

theorem done_eq_sequential_oneText : ∃ s,
    Reachable (step wordCount) Fenced (init (oneText.map Input.filename) 1 oneTextFiles) s ∧
    s.coordinator.done = true ∧ s.files (outFile 0) = some [97, 32, 49, 10] ∧
    ∃ records : ℤ → List (GoString × GoString),
      (s.coordinator.reduceTasks.keys.flatMap records).Perm (sequential wordCount oneText) := by
  have hrun : ((run (guarded (step wordCount) Fenced)
      (init (oneText.map Input.filename) 1 oneTextFiles) handedOver).map fun s =>
        decide (s.coordinator.done = true ∧ s.files (outFile 0) = some [97, 32, 49, 10])) =
      some true := by
    decide +kernel
  obtain ⟨s, hs, hd⟩ := Option.map_eq_some_iff.1 hrun
  obtain ⟨hdone, hfile⟩ := of_decide_eq_true hd
  have hreach := Reachable.init.run_guarded hs
  obtain ⟨records, -, -, hperm, -⟩ :=
    done_eq_sequential wordCount_lawful le_rfl given_oneText hreach hdone
  exact ⟨s, hreach, hdone, hfile, records, hperm⟩

end System

end RaftLabs.MapReduce
