import RaftLabs.MapReduce.Distributed

/-!
# A worker on its own

The steps of a worker, taken one after another while nothing else happens, have the effect of
`processMapTask` and `processReduceTask`: what is shown for whole tasks is about the same code as the
interleaved steps.  A worker that is alone finds its offsets at the ends of its files.
-/

namespace RaftLabs.MapReduce

open Lib

/-- The worker whose step it is. -/
def Event.worker : Event → Option ℕ
  | .getTask w _ => some w
  | .read w _ => some w
  | .create w => some w
  | .write w => some w
  | .close w => some w
  | .report w => some w
  | .crash w => some w
  | .inspectMapTasks _ _ => none
  | .inspectReduceTasks _ _ => none

namespace System

/-- Worker `w` makes steps, and nobody else. -/
def Moves (P : Program) (w : ℕ) : System → System → Prop :=
  Relation.ReflTransGen fun s s' => ∃ e : Event, e.worker = some w ∧ s.step P e = some s'

/-- The same system with these files, and worker `w` at this place in its code. -/
def place (s : System) (w : ℕ) (files : Files) (worker : Worker) : System :=
  { s with files := files, workers := Function.update s.workers w worker }

variable {P : Program} {s : System} {w size offset : ℕ} {files files' : Files}
  {worker worker' : Worker} {task : Task} {filename content name bytes : GoString}
  {names names' : List GoString} {kv : KeyValue} {kva : List KeyValue}

/-! ### Single steps -/

lemma moves_of_step {e : Event} {s' : System} (he : e.worker = some w) (hs : s.step P e = some s') :
    Moves P w s s' :=
  .single ⟨e, he, hs⟩

lemma moves_read (size : ℕ) (h : worker.read P files size = some worker') :
    Moves P w (s.place w files worker) (s.place w files worker') := by
  refine moves_of_step (e := .read w size) rfl ?_
  simp [step, place, setWorker, h]

lemma moves_create (h : worker.create = some (name, worker')) :
    Moves P w (s.place w files worker) (s.place w (files.create name) worker') := by
  refine moves_of_step (e := .create w) rfl ?_
  simp [step, place, setWorker, h]

lemma moves_write (h : worker.write P = some (name, offset, bytes, worker')) :
    Moves P w (s.place w files worker) (s.place w (files.write name offset bytes) worker') := by
  refine moves_of_step (e := .write w) rfl ?_
  simp [step, place, setWorker, h]

lemma moves_close (h : worker.close = some worker') :
    Moves P w (s.place w files worker) (s.place w files worker') := by
  refine moves_of_step (e := .close w) rfl ?_
  simp [step, place, setWorker, h]

/-- A write at the end of the file. -/
lemma write_eq_append (h : files name = some content) :
    files.write name content.length bytes = files.append name bytes := by
  have hdrop : content.drop (content.length + bytes.length) = [] :=
    List.drop_eq_nil_of_le (Nat.le_add_right _ _)
  simp [Files.write, Files.append, writeAt, h, hdrop]

/-! ### Map tasks -/

/-- The whole input is read. -/
lemma moves_mapReading (hname : task.filenames.head? = some filename)
    (hfile : files filename = some content) :
    Moves P w (s.place w files (.mapReading task []))
      (s.place w files (.mapping task (P.mapf filename content) [])) := by
  by_cases hempty : content = []
  · refine moves_read 0 ?_
    simp [Worker.read, hname, hfile, hempty]
  · have hfirst : (Worker.mapReading task []).read P files content.length =
        some (.mapReading task content) := by
      simp [Worker.read, hname, hfile, hempty]
    refine (moves_read _ hfirst).trans (moves_read 0 ?_)
    simp [Worker.read, hname, hfile]

/-- The worker has these files open, and its offsets are at their ends. -/
structure Tracks (files : Files) (names : List GoString) (opened : List (GoString × ℕ)) : Prop where
  nodup : names.Nodup
  fst : opened.map Prod.fst = names
  ends : ∀ p ∈ opened, ∃ content, files p.1 = some content ∧ content.length = p.2

lemma exists_lookup {opened : List (GoString × ℕ)} (h : name ∈ opened.map Prod.fst) :
    ∃ offset, opened.lookup name = some offset ∧ (name, offset) ∈ opened := by
  induction opened with
  | nil => exact absurd h List.not_mem_nil
  | cons p opened ih =>
    rw [List.lookup_cons]
    by_cases he : name = p.1
    · exact ⟨p.2, by simp [he], by simp [he]⟩
    · obtain ⟨offset, hl, hmem⟩ := ih (by simpa [he] using h)
      rw [beq_false_of_ne he]
      exact ⟨offset, hl, List.mem_cons_of_mem _ hmem⟩

variable {opened : List (GoString × ℕ)}

/-- The file is created unless it is open. -/
lemma Tracks.openFile (ht : Tracks files names opened) (hname : iFileName task kv = some name)
    {st : Files × List GoString}
    (hst : (if names.contains name then (files, names)
      else (files.create name, names ++ [name])) = st) :
    ∃ opened', Tracks st.1 st.2 opened' ∧ name ∈ st.2 ∧
      Moves P w (s.place w files (.mapping task (kv :: kva) opened))
        (s.place w st.1 (.mapping task (kv :: kva) opened')) := by
  subst hst
  by_cases hmem : name ∈ names
  · rw [if_pos (List.contains_iff_mem.2 hmem)]
    exact ⟨opened, ht, hmem, .refl⟩
  · rw [if_neg (List.contains_iff_mem.not.2 hmem)]
    refine ⟨opened ++ [(name, 0)], ⟨?_, by simp [ht.fst], fun p hp => ?_⟩, by simp,
      moves_create ?_⟩
    · simpa [List.nodup_append] using ⟨ht.nodup, fun a ha he => hmem (he ▸ ha)⟩
    · rcases List.mem_append.1 hp with hp | hp
      · have hne : p.1 ≠ name := fun he => hmem (he ▸ ht.fst ▸ List.mem_map_of_mem hp)
        simpa [Files.create, hne] using ht.ends p hp
      · rw [List.mem_singleton.1 hp]
        exact ⟨[], by simp [Files.create], rfl⟩
    · simp [Worker.create, hname, ht.fst, hmem]

/-- The pair is written at the end of its file. -/
lemma Tracks.write (ht : Tracks files names opened) (hname : iFileName task kv = some name)
    (hmem : name ∈ names) :
    ∃ opened', Tracks (files.append name (P.encode kv)) names opened' ∧
      Moves P w (s.place w files (.mapping task (kv :: kva) opened))
        (s.place w (files.append name (P.encode kv)) (.mapping task kva opened')) := by
  obtain ⟨offset, hlookup, hin⟩ := exists_lookup (ht.fst.symm ▸ hmem)
  obtain ⟨content, hfile, rfl⟩ := ht.ends _ hin
  refine ⟨opened.map fun f => if f.1 = name then (name, content.length + (P.encode kv).length) else f,
    ⟨ht.nodup, ?_, fun p hp => ?_⟩, ?_⟩
  · rw [← ht.fst, List.map_map]
    refine List.map_congr_left fun f _ => ?_
    by_cases he : f.1 = name
    · simp [he]
    · simp [he]
  · obtain ⟨f, hf, rfl⟩ := List.mem_map.1 hp
    by_cases he : f.1 = name
    · exact ⟨content ++ P.encode kv, by simp [he, Files.append, hfile], by simp [he]⟩
    · simpa [he, Files.append] using ht.ends f hf
  · rw [← write_eq_append hfile]
    refine moves_write ?_
    simp [Worker.write, hname, hlookup]

/-- One turn of the loop over the pairs. -/
lemma Tracks.putPair (ht : Tracks files names opened)
    (h : putPair P task (files, names) kv = some (files', names')) :
    ∃ opened', Tracks files' names' opened' ∧
      Moves P w (s.place w files (.mapping task (kv :: kva) opened))
        (s.place w files' (.mapping task kva opened')) := by
  obtain ⟨name, hname, hst⟩ := Option.map_eq_some_iff.1 h
  cases hst
  obtain ⟨opened₁, ht₁, hmem, hmoves₁⟩ := ht.openFile hname rfl
  obtain ⟨opened', ht', hmoves'⟩ := ht₁.write hname hmem
  exact ⟨opened', ht', hmoves₁.trans hmoves'⟩

/-- The loop over the pairs. -/
lemma Tracks.pairs (ht : Tracks files names opened)
    (h : run (MapReduce.putPair P task) (files, names) kva = some (files', names')) :
    ∃ opened', Tracks files' names' opened' ∧
      Moves P w (s.place w files (.mapping task kva opened))
        (s.place w files' (.mapping task [] opened')) := by
  induction kva generalizing files names opened with
  | nil =>
    cases h
    exact ⟨opened, ht, .refl⟩
  | cons kv kva ih =>
    obtain ⟨⟨files₁, names₁⟩, h₁, h⟩ := Option.bind_eq_some_iff.1 h
    obtain ⟨opened₁, ht₁, hmoves₁⟩ := ht.putPair h₁
    obtain ⟨opened', ht', hmoves'⟩ := ih ht₁ h
    exact ⟨opened', ht', hmoves₁.trans hmoves'⟩

/-- **A worker on its own does a map task.** -/
theorem moves_processMapTask (hname : task.filenames.head? = some filename)
    (hfile : files filename = some content)
    (h : processMapTask P task content files = some (files', names)) :
    Moves P w (s.place w files (.mapReading task [])) (s.place w files' (.mapClosed task names)) := by
  rw [processMapTask, hname, Option.bind_some] at h
  have ht : Tracks files [] [] := ⟨List.nodup_nil, rfl, fun _ h => absurd h List.not_mem_nil⟩
  obtain ⟨opened, ht', hmoves⟩ := ht.pairs h
  refine ((moves_mapReading hname hfile).trans hmoves).trans (moves_close ?_)
  rw [← ht'.fst]
  rfl

/-! ### Reduce tasks -/

/-- A file is read to its end. -/
lemma moves_readFile {kva' : List KeyValue} (h : readFile P files kva name = some kva') :
    Moves P w (s.place w files (.reduceReading task (name :: names) [] kva))
      (s.place w files (.reduceReading task names [] kva')) := by
  obtain ⟨content, hfile, rfl⟩ := Option.map_eq_some_iff.1 h
  by_cases hempty : content = []
  · refine moves_read 0 ?_
    simp [Worker.read, hfile, hempty]
  · have hfirst : (Worker.reduceReading task (name :: names) [] kva).read P files content.length =
        some (.reduceReading task (name :: names) content kva) := by
      simp [Worker.read, hfile, hempty]
    refine (moves_read _ hfirst).trans (moves_read 0 ?_)
    simp [Worker.read, hfile]

lemma moves_readFiles {kva' : List KeyValue} (h : run (readFile P files) kva names = some kva') :
    Moves P w (s.place w files (.reduceReading task names [] kva))
      (s.place w files (.reduceReading task [] [] kva')) := by
  induction names generalizing kva with
  | nil =>
    cases h
    exact .refl
  | cons name names ih =>
    obtain ⟨kva₁, h₁, h⟩ := Option.bind_eq_some_iff.1 h
    exact (moves_readFile h₁).trans (ih h)

/-- The lines are written one after another. -/
lemma moves_lines {records : List (GoString × GoString)}
    (hfile : files (outFile task.index) = some content) :
    Moves P w (s.place w files (.reducing task (records.map line) content.length))
      (s.place w (records.foldl (fun files r => Files.append files (outFile task.index) (line r))
        files) (.reduceClosed task)) := by
  induction records generalizing files content with
  | nil => exact moves_close rfl
  | cons r records ih =>
    have hnext : files.append (outFile task.index) (line r) (outFile task.index) =
        some (content ++ line r) := by
      simp [Files.append, hfile]
    have hwrite : Moves P w
        (s.place w files (.reducing task ((r :: records).map line) content.length))
        (s.place w (files.append (outFile task.index) (line r))
          (.reducing task (records.map line) (content.length + (line r).length))) := by
      rw [← write_eq_append hfile]
      exact moves_write rfl
    have hrest := ih hnext
    rw [List.length_append] at hrest
    exact hwrite.trans hrest

/-- **A worker on its own does a reduce task.** -/
theorem moves_processReduceTask (h : processReduceTask P files task = some files') :
    Moves P w (s.place w files (.reduceReading task task.filenames [] []))
      (s.place w files' (.reduceClosed task)) := by
  obtain ⟨kva, hread, rfl⟩ := Option.map_eq_some_iff.1 h
  refine (moves_readFiles hread).trans ((moves_read 0 rfl).trans ?_)
  refine (moves_create rfl).trans ?_
  rw [outputLines_eq]
  have hnew : files.create (outFile task.index) (outFile task.index) = some [] := by
    simp [Files.create]
  exact moves_lines hnew

end System

end RaftLabs.MapReduce
