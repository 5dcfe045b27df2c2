import RaftLabs.MapReduce.Fencing

/-!
# Reported files

`MapTaskDone` goes through the file names of a completed map task one by one, and puts each of them
into the reduce task whose number it reads after the second dash (`addFiles_readable`).  There is no
check before the loop: a name that cannot be read ends it in the middle, and what was done for the
names before it stays (`rejected_completion_unchanged_iff`).
-/

namespace RaftLabs.MapReduce

open Lib

/-! ### The reduce task of a file -/

/-- The number after the second dash of a file name. -/
def reduceIndex (filename : GoString) : Option ℤ :=
  (filename.splitOn 45)[2]?.bind Decimal.parseInt

lemma splitOn_mapFile (i r : ℕ) :
    (mapFile i r).splitOn 45 = [[109, 114], Decimal.formatNat i, Decimal.formatNat r] := by
  have hname : mapFile i r =
      [45].intercalate [[109, 114], Decimal.formatNat i, Decimal.formatNat r] := by
    simp [mapFile, formatInt_natCast, List.intercalate]
  rw [hname]
  refine List.splitOn_intercalate 45 (fun l hl => ?_) (by simp)
  simp only [List.mem_cons, List.not_mem_nil, or_false] at hl
  obtain rfl | rfl | rfl := hl
  · decide
  · exact dash_notMem i
  · exact dash_notMem r

lemma reduceIndex_mapFile {i r : ℕ} (h : r < 2 ^ 63) : reduceIndex (mapFile i r) = some (r : ℤ) := by
  rw [reduceIndex, splitOn_mapFile]
  exact Decimal.parseInt_formatNat h

/-- The number can be read off a name. -/
lemma mapFile_right_injective {i r r' : ℤ} (h : mapFile i r = mapFile i r') : r = r' :=
  Decimal.formatInt_injective (List.cons.inj (List.append_cancel_left h)).2

namespace Coordinator

variable {c : Coordinator} {idx j : ℤ} {filename : GoString} {filenames rest : List GoString}
  {req : Reply}

/-! ### The loop over the file names -/

/-- The files of reduce task `idx`. -/
def filesOf (c : Coordinator) (idx : ℤ) : List GoString :=
  ((c.reduceTasks.lookup idx).map Task.filenames).getD []

/-- One turn of the loop. -/
def addFile (c : Coordinator) (idx : ℤ) (filename : GoString) : Coordinator :=
  (c.createReduceTask idx).appendFile idx filename

lemma filesOf_createReduceTask (c : Coordinator) (idx j : ℤ) :
    (c.createReduceTask idx).filesOf j = c.filesOf j := by
  unfold createReduceTask
  split_ifs with hidx
  · rfl
  · unfold filesOf
    by_cases hj : j = idx
    · subst hj
      simp [AList.lookup_eq_none.2 hidx]
    · simp [AList.lookup_insert_ne hj]

lemma mem_createReduceTask :
    j ∈ (c.createReduceTask idx).reduceTasks ↔ j = idx ∨ j ∈ c.reduceTasks := by
  unfold createReduceTask
  split_ifs with hidx
  · exact ⟨Or.inr, fun h => h.elim (fun he => he ▸ hidx) id⟩
  · simp [AList.mem_insert]

/-- The file goes to the end of the list of its reduce task, and nowhere else. -/
lemma filesOf_addFile (c : Coordinator) (idx j : ℤ) (filename : GoString) :
    (c.addFile idx filename).filesOf j = c.filesOf j ++ if idx = j then [filename] else [] := by
  have hmem : idx ∈ (c.createReduceTask idx).reduceTasks := mem_createReduceTask.2 (Or.inl rfl)
  obtain ⟨task, htask⟩ := Option.isSome_iff_exists.1 (AList.lookup_isSome.2 hmem)
  rw [← c.filesOf_createReduceTask idx j]
  unfold addFile appendFile
  rw [htask]
  unfold filesOf
  by_cases hj : idx = j
  · subst hj
    simp [htask]
  · simp [AList.lookup_insert_ne (Ne.symm hj), hj]

lemma mem_addFile : j ∈ (c.addFile idx filename).reduceTasks ↔ j = idx ∨ j ∈ c.reduceTasks := by
  rw [← mem_createReduceTask]
  unfold addFile appendFile
  split
  · rfl
  · rename_i task htask
    have hmem := AList.lookup_isSome.1 (Option.isSome_of_eq_some htask)
    simp only [AList.mem_insert, or_iff_right_iff_imp]
    rintro rfl
    exact hmem

lemma addFiles_cons (h : reduceIndex filename = some idx) :
    c.addFiles (filename :: filenames) = (c.addFile idx filename).addFiles filenames := by
  obtain ⟨part, hpart, hidx⟩ := Option.bind_eq_some_iff.1 h
  rw [addFiles, hpart, Option.bind_some, hidx]
  rfl

/-- **Names that can be read are all put into their reduce tasks**, in order, and there is a reduce
task for each of them. -/
lemma addFiles_readable (c : Coordinator)
    (h : ∀ filename ∈ filenames, (reduceIndex filename).isSome = true) :
    ∃ c' : Coordinator, (∀ rest, c.addFiles (filenames ++ rest) = c'.addFiles rest) ∧
      (∀ j, c'.filesOf j = c.filesOf j ++ filenames.filter fun f => reduceIndex f = some j) ∧
      ∀ j, j ∈ c'.reduceTasks ↔
        j ∈ c.reduceTasks ∨ ∃ filename ∈ filenames, reduceIndex filename = some j := by
  induction filenames generalizing c with
  | nil => exact ⟨c, fun _ => rfl, by simp, by simp⟩
  | cons filename filenames ih =>
    obtain ⟨idx, hidx⟩ := Option.isSome_iff_exists.1 (h filename List.mem_cons_self)
    obtain ⟨c', hrun, hfiles, htasks⟩ :=
      ih (c.addFile idx filename) fun f hf => h f (List.mem_cons_of_mem _ hf)
    refine ⟨c', fun rest => ?_, fun j => ?_, fun j => ?_⟩
    · rw [List.cons_append, addFiles_cons hidx, hrun]
    · rw [hfiles, filesOf_addFile, List.filter_cons]
      by_cases hj : idx = j
      · simp [hj, hidx]
      · simp [hj, hidx]
    · rw [htasks, mem_addFile]
      simp only [List.mem_cons, exists_eq_or_imp, hidx, Option.some.injEq]
      rw [eq_comm (a := idx)]
      tauto

/-! ### Rejected completions -/

/-- Either all names can be read, or there is a first one that cannot. -/
lemma readable_or_exists (filenames : List GoString) :
    (∀ filename ∈ filenames, (reduceIndex filename).isSome = true) ∨
    ∃ before bad rest, filenames = before ++ bad :: rest ∧ reduceIndex bad = none ∧
      ∀ filename ∈ before, (reduceIndex filename).isSome = true := by
  induction filenames with
  | nil => exact Or.inl fun _ h => absurd h List.not_mem_nil
  | cons filename filenames ih =>
    cases hidx : reduceIndex filename with
    | none => exact Or.inr ⟨[], filename, filenames, rfl, hidx, fun _ h => absurd h List.not_mem_nil⟩
    | some idx =>
      have hread : (reduceIndex filename).isSome = true := by simp [hidx]
      rcases ih with h | ⟨before, bad, rest, rfl, hbad, hbefore⟩
      · exact Or.inl (List.forall_mem_cons.2 ⟨hread, h⟩)
      · exact Or.inr ⟨filename :: before, bad, rest, rfl, hbad,
          List.forall_mem_cons.2 ⟨hread, hbefore⟩⟩

/-- The loop ends at a name that cannot be read: with the error of `Atoi`, or with a panic. -/
lemma addFiles_unreadable (h : reduceIndex filename = none) :
    c.addFiles (filename :: filenames) =
      (filename.splitOn 45)[2]?.map fun part => (c, some (.atoi part)) := by
  rw [addFiles]
  cases hpart : (filename.splitOn 45)[2]? with
  | none => rfl
  | some part =>
    have hatoi : Decimal.parseInt part = none := by
      simpa [reduceIndex, hpart] using h
    rw [Option.bind_some, hatoi]
    rfl

/-- `MapTaskDone` returns, and if with an error, then it has changed nothing. -/
def Unharmed (c : Coordinator) (req : Reply) : Prop :=
  (∃ r, c.mapTaskDone req = some r) ∧
    ∀ c' e, c.mapTaskDone req = some (c', some e) → c' = c

lemma mapTaskDone_readable
    (htxn : (c.maps.leases.lookup req.index).map Transaction.txnID = some req.txnID)
    (h : ∀ filename ∈ req.filenames, (reduceIndex filename).isSome = true) :
    ∃ c', c.mapTaskDone req = some (c', none) := by
  obtain ⟨c', hrun, -, -⟩ := c.addFiles_readable h
  have hrun' : c.addFiles req.filenames = some (c', none) := by simpa [addFiles] using hrun []
  refine ⟨{ c' with maps := c'.maps.complete req.index }, ?_⟩
  rw [mapTaskDone, if_neg (not_not.2 htxn), hrun']
  rfl

/-- At a name that cannot be read, all files before it have been added. -/
lemma mapTaskDone_unreadable {before : List GoString}
    (htxn : (c.maps.leases.lookup req.index).map Transaction.txnID = some req.txnID)
    (hnames : req.filenames = before ++ filename :: rest) (hbad : reduceIndex filename = none)
    (hbefore : ∀ filename ∈ before, (reduceIndex filename).isSome = true) :
    ∃ c' : Coordinator, (c.mapTaskDone req =
        (filename.splitOn 45)[2]?.map fun part => (c', some (.atoi part))) ∧
      (before = [] → c' = c) ∧
      ∀ j, c'.filesOf j = c.filesOf j ++ before.filter fun f => reduceIndex f = some j := by
  have hrun : ∀ {c' : Coordinator}, c.addFiles req.filenames = c'.addFiles (filename :: rest) →
      c.mapTaskDone req =
        (filename.splitOn 45)[2]?.map fun part => (c', some (.atoi part)) := by
    intro c' h
    rw [mapTaskDone, if_neg (not_not.2 htxn), h, addFiles_unreadable hbad, Option.map_map]
    rfl
  cases before with
  | nil => exact ⟨c, hrun (by rw [hnames]; rfl), fun _ => rfl, fun j => by simp⟩
  | cons first before =>
    obtain ⟨c', hloop, hfiles, -⟩ := c.addFiles_readable hbefore
    exact ⟨c', hrun (by rw [hnames]; exact hloop _), fun h => (List.cons_ne_nil _ _ h).elim, hfiles⟩

/-- With a name that cannot be read, the call is unharmed only if that is the first name, and `Atoi`
is what finds it. -/
lemma unharmed_unreadable {before : List GoString}
    (htxn : (c.maps.leases.lookup req.index).map Transaction.txnID = some req.txnID)
    (hnames : req.filenames = before ++ filename :: rest) (hbad : reduceIndex filename = none)
    (hbefore : ∀ filename ∈ before, (reduceIndex filename).isSome = true) :
    c.Unharmed req ↔ before = [] ∧ ∃ part, (filename.splitOn 45)[2]? = some part := by
  obtain ⟨c', hc', hsame, hfiles⟩ := mapTaskDone_unreadable htxn hnames hbad hbefore
  constructor
  · rintro ⟨⟨r, hr⟩, hun⟩
    rw [hc'] at hr
    obtain ⟨part, hpart, -⟩ := Option.map_eq_some_iff.1 hr
    refine ⟨?_, part, hpart⟩
    have hsame' : c' = c := hun c' (.atoi part) (by rw [hc', hpart]; rfl)
    -- otherwise the first name has gone to its reduce task
    cases before with
    | nil => rfl
    | cons first before =>
      obtain ⟨idx, hidx⟩ := Option.isSome_iff_exists.1 (hbefore first List.mem_cons_self)
      have hgrown := hfiles idx
      rw [hsame', List.self_eq_append_right, List.filter_eq_nil_iff] at hgrown
      exact absurd (decide_eq_true hidx) (hgrown first List.mem_cons_self)
  · rintro ⟨hnil, part, hpart⟩
    rw [hpart] at hc'
    refine ⟨⟨_, hc'⟩, fun c'' e h => ?_⟩
    rw [hc'] at h
    cases h
    exact hsame hnil

/-- **When a rejected completion changes nothing and does not panic**: its transaction is not the
current one, or no name is unreadable, or the first name is, and has two dashes. -/
theorem rejected_completion_unchanged_iff (c : Coordinator) (req : Reply) :
    c.Unharmed req ↔
      (c.maps.leases.lookup req.index).map Transaction.txnID ≠ some req.txnID ∨
      (∀ filename ∈ req.filenames, (reduceIndex filename).isSome = true) ∨
      ∃ filename part, req.filenames.head? = some filename ∧
        (filename.splitOn 45)[2]? = some part ∧ Decimal.parseInt part = none := by
  by_cases htxn : (c.maps.leases.lookup req.index).map Transaction.txnID = some req.txnID
  swap
  · refine iff_of_true ⟨⟨_, if_pos htxn⟩, fun c' e h => ?_⟩ (Or.inl htxn)
    rw [mapTaskDone, if_pos htxn] at h
    cases h
    rfl
  rw [or_iff_right (not_not.2 htxn)]
  obtain hread | ⟨before, bad, rest, hnames, hbad, hbefore⟩ := readable_or_exists req.filenames
  · -- the completion is accepted
    obtain ⟨c', hc'⟩ := mapTaskDone_readable htxn hread
    refine iff_of_true ⟨⟨_, hc'⟩, fun c'' e h => ?_⟩ (Or.inl hread)
    rw [hc'] at h
    cases h
  have hnot : ¬ ∀ filename ∈ req.filenames, (reduceIndex filename).isSome = true := by
    intro h
    have := h bad (by simp [hnames])
    rw [hbad] at this
    cases this
  rw [or_iff_right hnot, unharmed_unreadable htxn hnames hbad hbefore]
  constructor
  · rintro ⟨rfl, part, hpart⟩
    exact ⟨bad, part, by simp [hnames], hpart, by simpa [reduceIndex, hpart] using hbad⟩
  · rintro ⟨filename, part, hhead, hpart, hatoi⟩
    have hnone : reduceIndex filename = none := by simp [reduceIndex, hpart, hatoi]
    cases before with
    | nil =>
      obtain rfl : bad = filename := by simpa [hnames] using hhead
      exact ⟨rfl, part, hpart⟩
    | cons first before =>
      obtain rfl : first = filename := by simpa [hnames] using hhead
      have := hbefore first List.mem_cons_self
      rw [hnone] at this
      cases this

/-- The only map task is out, and its worker reports.  After `mr-0-3` the name `mr-0-x` is an error,
but reduce task `3` is there now; and the name `x` is a panic. -/
theorem rejected_completion_leaves_files : ∃ s : Job,
    Reachable Job.step anyStep (Job.init [[97]] 10) s ∧
    (∃ c', s.coordinator.mapTaskDone ⟨0, 0, [mapFile 0 3, [109, 114, 45, 48, 45, 120]]⟩ =
        some (c', some (.atoi [120])) ∧
      s.coordinator.filesOf 3 = [] ∧ s.coordinator.reduces.queue = [] ∧
      c'.filesOf 3 = [mapFile 0 3] ∧ c'.reduces.queue = [3]) ∧
    s.coordinator.mapTaskDone ⟨0, 0, [[120]]⟩ = none := by
  have hrun : ((Lib.run Job.step (Job.init [[97]] 10) [.getMapTask 0]).bind fun s =>
      (s.coordinator.mapTaskDone ⟨0, 0, [mapFile 0 3, [109, 114, 45, 48, 45, 120]]⟩).map fun r =>
        decide (r.2 = some (.atoi [120]) ∧
          s.coordinator.filesOf 3 = [] ∧ s.coordinator.reduces.queue = [] ∧
          r.1.filesOf 3 = [mapFile 0 3] ∧ r.1.reduces.queue = [3]) &&
        (s.coordinator.mapTaskDone ⟨0, 0, [[120]]⟩).isNone) = some true := by
    decide +kernel
  obtain ⟨s, hs, h⟩ := Option.bind_eq_some_iff.1 hrun
  obtain ⟨⟨c', err⟩, hc', h⟩ := Option.map_eq_some_iff.1 h
  obtain ⟨hd, hnone⟩ := Bool.and_eq_true_iff.1 h
  obtain ⟨rfl, hfacts⟩ := of_decide_eq_true hd
  exact ⟨s, Reachable.init.run hs, ⟨c', hc', hfacts⟩, Option.isNone_iff_eq_none.1 hnone⟩

end Coordinator

end RaftLabs.MapReduce
