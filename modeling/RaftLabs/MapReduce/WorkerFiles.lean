import RaftLabs.MapReduce.Solo

/-!
# What workers leave in their files

A worker knows what it has written, but not whether the files still hold it: another worker may have
been given the same task.  As long as its transaction is the one in the table of the coordinator, and
files are written under such transactions only, they do (`Fits`).  The pairs that belong into a file
are given by its name (`contents`), so that what a reduce task reads does not depend on who has written
it.  A transaction that has left the table does not come back (`current_of_step`).
-/

namespace RaftLabs.MapReduce

open Lib

/-! ### Transactions -/

/-- The transaction of the task is in the table of the coordinator. -/
def Task.Current (c : Coordinator) (t : Task) : Prop :=
  ((if t.isMapTask then c.maps else c.reduces).leases.lookup t.index).map Transaction.txnID =
    some t.txnID

lemma Coordinator.addFiles_reduces {c c' : Coordinator} {err : Option Err} {names : List GoString}
    (h : c.addFiles names = some (c', err)) : c'.reduces.leases = c.reduces.leases ∧
      ∀ r, c'.reduces.status r = some .completed → c.reduces.status r = some .completed := by
  induction names generalizing c with
  | nil =>
    cases h
    exact ⟨rfl, fun _ => id⟩
  | cons name names ih =>
    obtain ⟨part, -, h⟩ := Option.bind_eq_some_iff.1 h
    split at h
    · cases h
      exact ⟨rfl, fun _ => id⟩
    · rename_i idx _
      obtain ⟨hleases, hstatus⟩ := ih h
      have hpool : ((c.createReduceTask idx).appendFile idx name).reduces =
          (c.createReduceTask idx).reduces := by
        unfold appendFile
        split <;> rfl
      rw [hpool] at hleases hstatus
      unfold createReduceTask at hleases hstatus
      split at hleases
      · rename_i hmem
        rw [if_pos hmem] at hstatus
        exact ⟨hleases, hstatus⟩
      · rename_i hmem
        rw [if_neg hmem] at hstatus
        refine ⟨hleases, fun r hr => ?_⟩
        have hadd := hstatus r hr
        by_cases he : r = idx
        · subst he
          simp [Pool.add] at hadd
        · simpa [Pool.add, he] using hadd

namespace Job

variable {s s' : Job} {e : JobEvent} {n : ℕ} {t : Task}

/-- A transaction is there since before the step, or it is the new one. -/
lemma lookup_of_step (hs : s.step e = some s') {i : ℤ} {txn : Transaction} :
    (s'.coordinator.maps.leases.lookup i = some txn →
      s.coordinator.maps.leases.lookup i = some txn ∨ txn.txnID = s.coordinator.nextTxnID) ∧
    (s'.coordinator.reduces.leases.lookup i = some txn →
      s.coordinator.reduces.leases.lookup i = some txn ∨
        txn.txnID = s.coordinator.nextTxnID) := by
  cases e with
  | getMapTask now =>
    obtain ⟨⟨c, task⟩, hc, rfl⟩ := Option.map_eq_some_iff.1 hs
    obtain ⟨rfl, -, -⟩ | ⟨j, p, t, htake, -, rfl, -, -⟩ := Coordinator.getMapTask_cases hc
    · exact ⟨Or.inl, Or.inl⟩
    · exact ⟨fun h => (Pool.lookup_take htake h).imp_right fun he => by rw [he], Or.inl⟩
  | getReduceTask now =>
    obtain ⟨⟨c, task⟩, hc, rfl⟩ := Option.map_eq_some_iff.1 hs
    obtain ⟨-, ⟨rfl, -⟩ | ⟨j, p, t, htake, -, rfl, -⟩⟩ := Coordinator.getReduceTask_cases hc
    · exact ⟨Or.inl, Or.inl⟩
    · exact ⟨Or.inl, fun h => (Pool.lookup_take htake h).imp_right fun he => by rw [he]⟩
  | mapTaskDone req =>
    obtain ⟨⟨c, err⟩, hc, rfl⟩ := Option.map_eq_some_iff.1 hs
    obtain ⟨rfl, -⟩ | ⟨-, c₁, ⟨err, hc₁, rfl, -⟩ | ⟨hc₁, rfl, -⟩⟩ :=
      Coordinator.mapTaskDone_cases hc
    · exact ⟨Or.inl, Or.inl⟩
    · have hleases := (Coordinator.addFiles_reduces hc₁).1
      obtain ⟨tasks, pool, rfl⟩ := Coordinator.addFiles_eq hc₁
      exact ⟨Or.inl, fun h => Or.inl (hleases ▸ h)⟩
    · have hleases := (Coordinator.addFiles_reduces hc₁).1
      obtain ⟨tasks, pool, rfl⟩ := Coordinator.addFiles_eq hc₁
      exact ⟨fun h => Or.inl (Pool.lookup_erase h), fun h => Or.inl (hleases ▸ h)⟩
  | reduceTaskDone req =>
    cases hs
    obtain he | ⟨-, he⟩ := Coordinator.reduceTaskDone_cases s.coordinator req
    · dsimp only
      rw [he]
      exact ⟨Or.inl, Or.inl⟩
    · dsimp only
      rw [he]
      exact ⟨Or.inl, fun h => Or.inl (Pool.lookup_erase h)⟩
  | inspectMapTasks now order =>
    obtain ⟨c, hc, rfl⟩ := Option.map_eq_some_iff.1 hs
    obtain ⟨p, hp, rfl⟩ := Option.map_eq_some_iff.1 hc
    obtain ⟨is, -, -, rfl⟩ := Coordinator.inspect_cases hp
    exact ⟨fun h => Or.inl (Pool.lookup_releaseAll h), Or.inl⟩
  | inspectReduceTasks now order =>
    obtain ⟨c, hc, rfl⟩ := Option.map_eq_some_iff.1 hs
    obtain ⟨p, hp, rfl⟩ := Option.map_eq_some_iff.1 hc
    obtain ⟨is, -, -, rfl⟩ := Coordinator.inspect_cases hp
    exact ⟨Or.inl, fun h => Or.inl (Pool.lookup_releaseAll h)⟩

/-- **A transaction that has timed out does not come back.** -/
lemma current_of_step (hi : s.Inv n) (hs : s.step e = some s') (ht : t ∈ s.handed)
    (h : t.Current s'.coordinator) : t.Current s.coordinator := by
  obtain ⟨txn, hlookup, he⟩ := Option.map_eq_some_iff.1 h
  have hold : ∀ {p : Pool ℤ Transaction}, p.leases.lookup t.index = some txn ∨
      txn.txnID = s.coordinator.nextTxnID →
      (p.leases.lookup t.index).map Transaction.txnID = some t.txnID := by
    rintro p (hl | hl)
    · rw [hl, Option.map_some, he]
    · exact absurd (he.symm.trans hl) (hi.below t ht).ne
  unfold Task.Current
  split_ifs at hlookup ⊢
  · exact hold ((lookup_of_step hs).1 hlookup)
  · exact hold ((lookup_of_step hs).2 hlookup)

/-- A reduce task is completed by a report only. -/
lemma completed_of_step (hs : s.step e = some s') {r : ℤ}
    (h : s'.coordinator.reduces.status r = some .completed) :
    s.coordinator.reduces.status r = some .completed ∨
      ∃ req, e = .reduceTaskDone req ∧ req.index = r ∧
        (s.coordinator.reduces.leases.lookup r).map Transaction.txnID = some req.txnID := by
  cases e with
  | getMapTask now =>
    obtain ⟨⟨c, task⟩, hc, rfl⟩ := Option.map_eq_some_iff.1 hs
    obtain ⟨rfl, -, -⟩ | ⟨j, p, t, -, -, rfl, -, -⟩ := Coordinator.getMapTask_cases hc <;>
      exact Or.inl h
  | getReduceTask now =>
    obtain ⟨⟨c, task⟩, hc, rfl⟩ := Option.map_eq_some_iff.1 hs
    obtain ⟨-, ⟨rfl, -⟩ | ⟨j, p, t, htake, -, rfl, -⟩⟩ := Coordinator.getReduceTask_cases hc
    · exact Or.inl h
    · exact Or.inl (Pool.completed_of_take htake h)
  | mapTaskDone req =>
    obtain ⟨⟨c, err⟩, hc, rfl⟩ := Option.map_eq_some_iff.1 hs
    obtain ⟨rfl, -⟩ | ⟨-, c₁, ⟨err, hc₁, rfl, -⟩ | ⟨hc₁, rfl, -⟩⟩ :=
      Coordinator.mapTaskDone_cases hc
    · exact Or.inl h
    · exact Or.inl ((Coordinator.addFiles_reduces hc₁).2 r h)
    · exact Or.inl ((Coordinator.addFiles_reduces hc₁).2 r h)
  | reduceTaskDone req =>
    cases hs
    dsimp only at h
    obtain he | ⟨⟨txn, hl, htxn⟩, he⟩ := Coordinator.reduceTaskDone_cases s.coordinator req
    · rw [he] at h
      exact Or.inl h
    · rw [he] at h
      by_cases hr : r = req.index
      · refine Or.inr ⟨req, rfl, hr.symm, ?_⟩
        rw [hr, hl, Option.map_some, htxn]
      · exact Or.inl (by simpa [Pool.complete, hr] using h)
  | inspectMapTasks now order =>
    obtain ⟨c, hc, rfl⟩ := Option.map_eq_some_iff.1 hs
    obtain ⟨p, hp, rfl⟩ := Option.map_eq_some_iff.1 hc
    exact Or.inl h
  | inspectReduceTasks now order =>
    obtain ⟨c, hc, rfl⟩ := Option.map_eq_some_iff.1 hs
    obtain ⟨p, hp, rfl⟩ := Option.map_eq_some_iff.1 hc
    obtain ⟨is, -, -, rfl⟩ := Coordinator.inspect_cases hp
    exact Or.inl (Pool.completed_of_releaseAll h)

lemma handed_subset_of_step (hs : s.step e = some s') : s.handed ⊆ s'.handed := by
  cases e with
  | getMapTask now =>
    obtain ⟨r, -, rfl⟩ := Option.map_eq_some_iff.1 hs
    exact List.subset_append_left _ _
  | getReduceTask now =>
    obtain ⟨r, -, rfl⟩ := Option.map_eq_some_iff.1 hs
    exact List.subset_append_left _ _
  | mapTaskDone req =>
    obtain ⟨r, -, rfl⟩ := Option.map_eq_some_iff.1 hs
    exact List.Subset.refl _
  | reduceTaskDone req =>
    cases hs
    exact List.Subset.refl _
  | inspectMapTasks now order =>
    obtain ⟨c, -, rfl⟩ := Option.map_eq_some_iff.1 hs
    exact List.Subset.refl _
  | inspectReduceTasks now order =>
    obtain ⟨c, -, rfl⟩ := Option.map_eq_some_iff.1 hs
    exact List.Subset.refl _

end Job

/-! ### What belongs into the files -/

section Contents

variable (P : Program) (inputs : List Input) (nReduce : ℤ)

/-- The pairs that belong into the file with this name. -/
def contents (name : GoString) : List KeyValue :=
  inputs.zipIdx.flatMap fun p => taskPairs P nReduce p.2 p.1 name

/-- The lines of a reduce task that finds its files complete. -/
def outLines (t : Task) : List GoString :=
  outputLines P (P.sort (t.filenames.flatMap (contents P inputs nReduce)))

/-- The task is map task `i`, under some transaction. -/
def IsMap (t : Task) (i : ℕ) (input : Input) : Prop :=
  inputs[i]? = some input ∧ t = { taskOf nReduce i input with txnID := t.txnID }

end Contents

variable {P : Program} {inputs : List Input} {nReduce : ℤ} {i : ℕ} {input : Input} {t : Task}
  {name : GoString}

lemma flatMap_eq_of_unique {α β : Type} {l : List α} {f : α → List β} {x : α} (hl : l.Nodup)
    (hx : x ∈ l) (h : ∀ y ∈ l, y ≠ x → f y = []) : l.flatMap f = f x := by
  induction l with
  | nil => exact absurd hx List.not_mem_nil
  | cons y l ih =>
    obtain ⟨hy, hl⟩ := List.nodup_cons.1 hl
    rw [List.flatMap_cons]
    rcases List.mem_cons.1 hx with rfl | hx
    · have hrest : l.flatMap f = [] := List.flatMap_eq_nil_iff.2 fun z hz =>
        h z (List.mem_cons_of_mem _ hz) fun he => hy (he ▸ hz)
      rw [hrest, List.append_nil]
    · rw [h y List.mem_cons_self fun he => hy (he ▸ hx), List.nil_append]
      exact ih hl hx fun z hz => h z (List.mem_cons_of_mem _ hz)

/-- The names tell the map tasks apart. -/
lemma contents_mapFile (hi : inputs[i]? = some input) (r : ℕ) :
    contents P inputs nReduce (mapFile i r) = taskPairs P nReduce i input (mapFile i r) := by
  refine flatMap_eq_of_unique (x := (input, i)) (nodup_zipIdx inputs)
    (List.mk_mem_zipIdx_iff_getElem?.2 hi) ?_
  rintro ⟨input', j⟩ hj hne
  by_contra hpairs
  obtain ⟨r', -, he⟩ := exists_mapFile hpairs
  obtain rfl := mapFile_injective he
  obtain rfl := Option.some.inj (hi.symm.trans (List.mk_mem_zipIdx_iff_getElem?.1 hj))
  exact hne rfl

lemma contents_eq (hi : inputs[i]? = some input) (h : taskPairs P nReduce i input name ≠ []) :
    contents P inputs nReduce name = taskPairs P nReduce i input name := by
  obtain ⟨r, -, rfl⟩ := exists_mapFile h
  exact contents_mapFile hi r

lemma decode_contents (hP : P.Lawful) (name : GoString) :
    P.decode ((contents P inputs nReduce name).flatMap P.encode) =
      contents P inputs nReduce name := by
  refine hP.decode _ fun kv hkv => ?_
  obtain ⟨p, -, hp⟩ := List.mem_flatMap.1 hkv
  exact hP.valid _ _ kv (List.mem_filter.1 hp).1

/-! ### What a worker has done so far -/

namespace Worker

def task : Worker → Option Task
  | mapReading t _ => some t
  | mapping t _ _ => some t
  | mapClosed t _ => some t
  | reduceReading t _ _ _ => some t
  | reduceSorted t _ => some t
  | reducing t _ _ => some t
  | reduceClosed t => some t
  | _ => none

end Worker

/-- The files of a task. -/
def Task.Owns (t : Task) (name : GoString) : Prop :=
  if t.isMapTask then ∃ r : ℕ, name = mapFile t.index r else name = outFile t.index

/-- The open files of a map task that has written the pairs `done`, when `kva` are left. -/
structure Opened (P : Program) (t : Task) (done kva : List KeyValue)
    (opened : List (GoString × ℕ)) : Prop where
  nodup : (opened.map Prod.fst).Nodup
  used : ∀ name ∈ opened.map Prod.fst, pairsFor t done name ≠ [] ∨
    ∃ kv, kva.head? = some kv ∧ iFileName t kv = some name
  all : ∀ name, pairsFor t done name ≠ [] → name ∈ opened.map Prod.fst
  offset : ∀ p ∈ opened, p.2 = ((pairsFor t done p.1).flatMap P.encode).length

/-- **What a worker has done**: as long as its transaction is current, its files hold what it has
written. -/
def Fits (P : Program) (inputs : List Input) (nReduce : ℤ) (c : Coordinator) (files : Files) :
    Worker → Prop
  | .mapReading t buffer => ∃ i input, IsMap inputs nReduce t i input ∧ buffer <+: input.content
  | .mapping t kva opened => ∃ i input done, IsMap inputs nReduce t i input ∧
      P.mapf input.filename input.content = done ++ kva ∧ Opened P t done kva opened ∧
      (t.Current c → ∀ p ∈ opened, files p.1 = some ((pairsFor t done p.1).flatMap P.encode))
  | .mapClosed t names => ∃ i input, IsMap inputs nReduce t i input ∧ names.Nodup ∧
      (∀ name, name ∈ names ↔ taskPairs P nReduce i input name ≠ []) ∧
      (t.Current c → ∀ name ∈ names,
        files name = some ((taskPairs P nReduce i input name).flatMap P.encode))
  | .reduceReading t filenames buffer kva => t.isMapTask = false ∧
      ∃ done, t.filenames = done ++ filenames ∧ kva = done.flatMap (contents P inputs nReduce) ∧
        ∀ name ∈ filenames.head?, buffer <+: (contents P inputs nReduce name).flatMap P.encode
  | .reduceSorted t lines => t.isMapTask = false ∧ lines = outLines P inputs nReduce t
  | .reducing t lines offset => t.isMapTask = false ∧
      ∃ done, outLines P inputs nReduce t = done ++ lines ∧ offset = done.flatten.length ∧
        (t.Current c → files (outFile t.index) = some done.flatten)
  | .reduceClosed t => t.isMapTask = false ∧
      (t.Current c → files (outFile t.index) = some (outLines P inputs nReduce t).flatten)
  | _ => True

lemma IsMap.isMapTask (h : IsMap inputs nReduce t i input) : t.isMapTask = true := by
  rw [h.2]
  rfl

lemma IsMap.index (h : IsMap inputs nReduce t i input) : t.index = i := by
  rw [h.2]
  rfl

lemma IsMap.pairsFor (h : IsMap inputs nReduce t i input) (kva : List KeyValue) (name : GoString) :
    pairsFor t kva name = MapReduce.pairsFor (taskOf nReduce i input) kva name := by
  rw [h.2]
  rfl

variable {c c' : Coordinator} {files files' : Files} {worker worker' : Worker}

lemma IsMap.owns (h : IsMap inputs nReduce t i input) {kva : List KeyValue}
    (hne : MapReduce.pairsFor t kva name ≠ []) : t.Owns name := by
  obtain ⟨kv, hkv⟩ := List.exists_mem_of_ne_nil _ hne
  obtain ⟨r, -, hr⟩ := exists_bucket t.nReduce kv.key
  rw [Task.Owns, if_pos h.isMapTask]
  refine ⟨r, ?_⟩
  rw [← hr]
  exact (of_decide_eq_true (List.mem_filter.1 hkv).2).symm

lemma Opened.owns {done kva : List KeyValue} {opened : List (GoString × ℕ)}
    (h : Opened P t done kva opened) (ht : IsMap inputs nReduce t i input)
    (hname : name ∈ opened.map Prod.fst) : t.Owns name := by
  obtain hne | ⟨kv, -, hkv⟩ := h.used name hname
  · exact ht.owns hne
  · rw [Task.Owns, if_pos ht.isMapTask]
    obtain ⟨r, -, hr⟩ := exists_of_iFileName hkv
    exact ⟨r, hr⟩

/-- A worker that has been given a task. -/
lemma fits_start (P : Program) (c : Coordinator) (files : Files)
    (ht : t.isMapTask = true → ∃ i input, IsMap inputs nReduce t i input) :
    Fits P inputs nReduce c files (Worker.start t) ∧ (Worker.start t).task = some t := by
  unfold Worker.start
  split_ifs with hm
  · obtain ⟨i, input, hi⟩ := ht hm
    exact ⟨⟨i, input, hi, List.nil_prefix⟩, rfl⟩
  · exact ⟨⟨by simpa using hm, [], rfl, rfl, fun _ _ => List.nil_prefix⟩, rfl⟩

/-- Others do not disturb a worker. -/
lemma Fits.mono (h : Fits P inputs nReduce c files worker)
    (hkeep : ∀ t, worker.task = some t → t.Current c' →
      t.Current c ∧ ∀ name, t.Owns name → files' name = files name) :
    Fits P inputs nReduce c' files' worker := by
  cases worker with
  | idle => trivial
  | asking => trivial
  | exited => trivial
  | mapReading t buffer => exact h
  | mapping t kva opened =>
    obtain ⟨i, input, done, ht, hmapf, hopened, hfiles⟩ := h
    refine ⟨i, input, done, ht, hmapf, hopened, fun hcur p hp => ?_⟩
    obtain ⟨hcur, hsame⟩ := hkeep t rfl hcur
    rw [hsame _ (hopened.owns ht (List.mem_map_of_mem hp))]
    exact hfiles hcur p hp
  | mapClosed t names =>
    obtain ⟨i, input, ht, hnodup, hnames, hfiles⟩ := h
    refine ⟨i, input, ht, hnodup, hnames, fun hcur name hname => ?_⟩
    obtain ⟨hcur, hsame⟩ := hkeep t rfl hcur
    rw [hsame name]
    · exact hfiles hcur name hname
    · have hne := (hnames name).1 hname
      rw [taskPairs, ← ht.pairsFor] at hne
      exact ht.owns hne
  | reduceReading t filenames buffer kva => exact h
  | reduceSorted t lines => exact h
  | reducing t lines offset =>
    obtain ⟨ht, done, hlines, hoffset, hfile⟩ := h
    refine ⟨ht, done, hlines, hoffset, fun hcur => ?_⟩
    obtain ⟨hcur, hsame⟩ := hkeep t rfl hcur
    rw [hsame _ (by simp [Task.Owns, ht])]
    exact hfile hcur
  | reduceClosed t =>
    obtain ⟨ht, hfile⟩ := h
    refine ⟨ht, fun hcur => ?_⟩
    obtain ⟨hcur, hsame⟩ := hkeep t rfl hcur
    rw [hsame _ (by simp [Task.Owns, ht])]
    exact hfile hcur

/-! ### Steps of one worker -/

/-- A read, when the input files and the files of the reduce tasks are complete. -/
lemma Fits.read (hP : P.Lawful) (h : Fits P inputs nReduce c files worker) {size : ℕ}
    (hinput : ∀ input ∈ inputs, files input.filename = some input.content)
    (hmapped : ∀ t, worker.task = some t → t.isMapTask = false → ∀ name ∈ t.filenames,
      files name = some ((contents P inputs nReduce name).flatMap P.encode))
    (hr : worker.read P files size = some worker') :
    Fits P inputs nReduce c files worker' ∧ (worker'.task = worker.task ∨ worker'.task = none) := by
  cases worker with
  | mapReading t buffer =>
    obtain ⟨i, input, ht, hbuffer⟩ := h
    have hname : t.filenames.head? = some input.filename := by
      rw [ht.2]
      rfl
    have hfile := hinput input (List.mem_of_getElem? ht.1)
    simp only [Worker.read, hname, Option.map_some, hfile, Option.some.injEq] at hr
    subst hr
    split_ifs with hlen
    · refine ⟨⟨i, input, [], ht, ?_, ?_, fun _ p hp => absurd hp List.not_mem_nil⟩, Or.inl rfl⟩
      · rw [hbuffer.eq_of_length_le hlen, List.nil_append]
      · exact ⟨List.nodup_nil, by simp, by simp [pairsFor], by simp⟩
    · refine ⟨⟨i, input, ht, ?_⟩, Or.inl rfl⟩
      obtain ⟨rest, hrest⟩ := hbuffer
      rw [← hrest, List.drop_left]
      exact List.prefix_append_right_inj _ |>.2 (List.take_prefix _ _)
  | reduceReading t filenames buffer kva =>
    obtain ⟨ht, done, hsplit, hkva, hbuffer⟩ := h
    cases filenames with
    | nil =>
      cases hr
      refine ⟨⟨ht, ?_⟩, Or.inl rfl⟩
      rw [outLines, hkva, hsplit, List.append_nil]
    | cons name filenames =>
      have hfile := hmapped t rfl ht name (by simp [hsplit])
      have hread := hbuffer name rfl
      simp only [Worker.read, hfile] at hr
      split_ifs at hr with hlen
      · cases hr
        refine ⟨⟨ht, done ++ [name], by simp [hsplit], ?_, fun _ _ => List.nil_prefix⟩, Or.inl rfl⟩
        rw [hread.eq_of_length_le hlen, decode_contents hP, hkva]
        simp
      · cases hr
        refine ⟨⟨ht, done, hsplit, hkva, ?_⟩, Or.inl rfl⟩
        rintro _ ⟨⟩
        obtain ⟨rest, hrest⟩ := hread
        rw [← hrest, List.drop_left]
        exact List.prefix_append_right_inj _ |>.2 (List.take_prefix _ _)
  | _ => cases hr

lemma Fits.close (h : Fits P inputs nReduce c files worker) (hr : worker.close = some worker') :
    Fits P inputs nReduce c files worker' ∧ worker'.task = worker.task := by
  cases worker with
  | mapping t kva opened =>
    cases kva with
    | cons kv kva => cases hr
    | nil =>
      cases hr
      obtain ⟨i, input, done, ht, hmapf, hopened, hfiles⟩ := h
      rw [List.append_nil] at hmapf
      have hpairs : ∀ name, pairsFor t done name = taskPairs P nReduce i input name := by
        intro name
        rw [ht.pairsFor, taskPairs, hmapf]
      refine ⟨⟨i, input, ht, hopened.nodup, fun name => ?_, fun hcur name hname => ?_⟩, rfl⟩
      · rw [← hpairs]
        refine ⟨fun hname => ?_, hopened.all name⟩
        obtain hne | ⟨kv, hkv, -⟩ := hopened.used name hname
        · exact hne
        · cases hkv
      · obtain ⟨p, hp, rfl⟩ := List.mem_map.1 hname
        rw [← hpairs]
        exact hfiles hcur p hp
  | reducing t lines offset =>
    cases lines with
    | cons line lines => cases hr
    | nil =>
      cases hr
      obtain ⟨ht, done, hlines, -, hfile⟩ := h
      rw [List.append_nil] at hlines
      exact ⟨⟨ht, fun hcur => by rw [hlines, hfile hcur]⟩, rfl⟩
  | _ => cases hr

lemma Fits.create (h : Fits P inputs nReduce c files worker)
    (hr : worker.create = some (name, worker')) :
    Fits P inputs nReduce c (files.create name) worker' ∧ worker'.task = worker.task := by
  cases worker with
  | mapping t kva opened =>
    cases kva with
    | nil => cases hr
    | cons kv kva =>
      obtain ⟨i, input, done, ht, hmapf, hopened, hfiles⟩ := h
      obtain ⟨name', hname, hr⟩ := Option.bind_eq_some_iff.1 hr
      obtain ⟨hnew, hr⟩ := Option.ite_none_left_eq_some.1 hr
      cases hr
      have hnone : pairsFor t done name = [] := by
        by_contra hne
        exact hnew (hopened.all name hne)
      refine ⟨⟨i, input, done, ht, hmapf, ⟨?_, fun x hx => ?_, fun x hx => ?_, fun p hp => ?_⟩,
        fun hcur p hp => ?_⟩, rfl⟩
      · simpa [List.nodup_append] using ⟨hopened.nodup, fun a b hab he => hnew (by
          rw [← he]
          exact List.mem_map_of_mem hab)⟩
      · rw [List.map_append, List.mem_append] at hx
        rcases hx with hx | hx
        · exact hopened.used x hx
        · exact Or.inr ⟨kv, rfl, by simpa [List.mem_singleton.1 hx] using hname⟩
      · rw [List.map_append]
        exact List.mem_append_left _ (hopened.all x hx)
      · rcases List.mem_append.1 hp with hp | hp
        · exact hopened.offset p hp
        · simp [List.mem_singleton.1 hp, hnone]
      · rcases List.mem_append.1 hp with hp | hp
        · have hne : p.1 ≠ name := fun he => hnew (he ▸ List.mem_map_of_mem hp)
          simpa [Files.create, hne] using hfiles hcur p hp
        · simp [List.mem_singleton.1 hp, Files.create, hnone]
  | reduceSorted t lines =>
    cases hr
    obtain ⟨ht, hlines⟩ := h
    exact ⟨⟨ht, [], by simp [hlines], rfl, fun _ => by simp [Files.create]⟩, rfl⟩
  | _ => cases hr

/-- A write moves an offset. -/
lemma map_fst_advance (opened : List (GoString × ℕ)) (name : GoString) (offset : ℕ) :
    (opened.map fun f => if f.1 = name then (name, offset) else f).map Prod.fst =
      opened.map Prod.fst := by
  rw [List.map_map]
  refine List.map_congr_left fun f _ => ?_
  by_cases he : f.1 = name <;> simp [he]

/-- A write under the current transaction is one at the end of the file. -/
lemma Fits.write (h : Fits P inputs nReduce c files worker) (hn : nReduce ≠ 0)
    (hcur : ∀ t, worker.task = some t → t.Current c) {offset : ℕ} {bytes : GoString}
    (hr : worker.write P = some (name, offset, bytes, worker')) :
    Fits P inputs nReduce c (files.write name offset bytes) worker' ∧
      worker'.task = worker.task := by
  cases worker with
  | mapping t kva opened =>
    cases kva with
    | nil => cases hr
    | cons kv kva =>
      obtain ⟨i, input, done, ht, hmapf, hopened, hfiles⟩ := h
      obtain ⟨name', hname, hr⟩ := Option.bind_eq_some_iff.1 hr
      obtain ⟨offset', hoffset, hr⟩ := Option.map_eq_some_iff.1 hr
      cases hr
      have hfile : mapFile t.index (bucket t.nReduce kv.key) = name := by
        have hne : t.nReduce ≠ 0 := by
          rw [ht.2]
          exact hn
        rw [iFileName_eq_mapFile hne] at hname
        exact Option.some.inj hname
      have hpairs : ∀ x, pairsFor t (done ++ [kv]) x =
          pairsFor t done x ++ if name = x then [kv] else [] := by
        intro x
        rw [pairsFor_concat, hfile]
      have hmem : (name, offset) ∈ opened := by
        obtain ⟨l₁, l₂, rfl, -⟩ := List.lookup_eq_some_iff.1 hoffset
        simp
      have hold := hfiles (hcur t rfl) _ hmem
      have hlen : offset = ((pairsFor t done name).flatMap P.encode).length := hopened.offset _ hmem
      have hwrite : files.write name offset (P.encode kv) = files.append name (P.encode kv) := by
        rw [hlen]
        exact System.write_eq_append hold
      have hfst := map_fst_advance opened name (offset + (P.encode kv).length)
      refine ⟨⟨i, input, done ++ [kv], ht, by simpa using hmapf, ⟨?_, fun x hx => ?_, fun x hx => ?_,
        fun p hp => ?_⟩, fun _ p hp => ?_⟩, rfl⟩
      · rw [hfst]
        exact hopened.nodup
      · rw [hfst] at hx
        rw [hpairs]
        obtain hne | ⟨kv', hkv', hx'⟩ := hopened.used x hx
        · exact Or.inl (by simp [hne])
        · cases hkv'
          cases hname.symm.trans hx'
          exact Or.inl (by simp)
      · rw [hfst]
        by_cases he : name = x
        · exact he ▸ List.mem_map_of_mem hmem
        · exact hopened.all x (by simpa [hpairs, he] using hx)
      · obtain ⟨f, hf, rfl⟩ := List.mem_map.1 hp
        by_cases he : f.1 = name
        · simp [he, hpairs, hlen]
        · simpa [he, hpairs, Ne.symm he] using hopened.offset f hf
      · obtain ⟨f, hf, rfl⟩ := List.mem_map.1 hp
        rw [hwrite]
        by_cases he : f.1 = name
        · simp [he, hpairs, Files.append, hold]
        · simpa [he, hpairs, Ne.symm he, Files.append] using hfiles (hcur t rfl) f hf
  | reducing t lines offset' =>
    cases lines with
    | nil => cases hr
    | cons line lines =>
      cases hr
      obtain ⟨ht, done, hlines, rfl, hfile⟩ := h
      have hold := hfile (hcur t rfl)
      refine ⟨⟨ht, done ++ [bytes], by simp [hlines], by simp, fun _ => ?_⟩, rfl⟩
      rw [System.write_eq_append hold]
      simp [Files.append, hold]
  | _ => cases hr

lemma Fits.isMap (h : Fits P inputs nReduce c files worker) (ht : worker.task = some t)
    (hm : t.isMapTask = true) : ∃ i input, IsMap inputs nReduce t i input := by
  cases worker with
  | mapReading t' buffer =>
    cases ht
    obtain ⟨i, input, hi, -⟩ := h
    exact ⟨i, input, hi⟩
  | mapping t' kva opened =>
    cases ht
    obtain ⟨i, input, done, hi, -⟩ := h
    exact ⟨i, input, hi⟩
  | mapClosed t' names =>
    cases ht
    obtain ⟨i, input, hi, -⟩ := h
    exact ⟨i, input, hi⟩
  | idle => cases ht
  | asking => cases ht
  | exited => cases ht
  | reduceReading t' filenames buffer kva =>
    cases ht
    exact absurd (hm.symm.trans h.1) (by simp)
  | reduceSorted t' lines =>
    cases ht
    exact absurd (hm.symm.trans h.1) (by simp)
  | reducing t' lines offset =>
    cases ht
    exact absurd (hm.symm.trans h.1) (by simp)
  | reduceClosed t' =>
    cases ht
    exact absurd (hm.symm.trans h.1) (by simp)

/-- A worker that writes under a current transaction writes to the files of its task. -/
lemma Fits.owns (h : Fits P inputs nReduce c files worker) (hw : worker.Writes name)
    (hcur : worker.Current c) : ∃ t, worker.task = some t ∧ t.Current c ∧ t.Owns name := by
  cases worker with
  | mapping t kva opened =>
    obtain ⟨i, input, done, ht, -⟩ := h
    refine ⟨t, rfl, ?_, ?_⟩
    · rw [Task.Current, if_pos ht.isMapTask]
      exact hcur
    · rw [Task.Owns, if_pos ht.isMapTask]
      exact hw
  | reduceSorted t lines =>
    refine ⟨t, rfl, ?_, ?_⟩
    · rw [Task.Current, h.1]
      exact hcur
    · rw [Task.Owns, h.1]
      exact hw
  | reducing t lines offset =>
    refine ⟨t, rfl, ?_, ?_⟩
    · rw [Task.Current, h.1]
      exact hcur
    · rw [Task.Owns, h.1]
      exact hw
  | _ => exact absurd hw id

end RaftLabs.MapReduce
