import Mathlib.Data.Finset.Card
import Mathlib.Data.List.AList
import Mathlib.Tactic

/-!
# Tasks that are leased

A pool of tasks.  A task waits in a queue until it is taken under a lease; it is then completed, or
its lease is taken back and it waits again.  The state of a task is written down several times: in
its status, by its presence in the queue and in the table of leases, and in a counter of completed
tasks.  `Consistent` says that these agree, and each operation keeps it.
-/

namespace RaftLabs.Lib

inductive Status
  | idle | inProgress | completed
  deriving DecidableEq

/-- A pool of tasks `ι` with leases `τ`. -/
structure Pool (ι τ : Type) where
  status : ι → Option Status
  leases : AList fun _ : ι => τ
  queue : List ι
  completedCnt : ℕ

namespace Pool

variable {ι τ : Type} [DecidableEq ι]

def empty : Pool ι τ := ⟨fun _ => none, ∅, [], 0⟩

variable (p : Pool ι τ)

/-- A new task, which waits. -/
def add (i : ι) : Pool ι τ :=
  { p with status := Function.update p.status i (some .idle), queue := p.queue ++ [i] }

/-- The task that has waited longest goes out under a lease. -/
def take (t : τ) : Option (ι × Pool ι τ) :=
  match p.queue with
  | [] => none
  | i :: queue =>
    some (i,
      { p with
        status := Function.update p.status i (some .inProgress)
        leases := p.leases.insert i t
        queue := queue })

def complete (i : ι) : Pool ι τ :=
  { p with
    status := Function.update p.status i (some .completed)
    leases := p.leases.erase i
    completedCnt := p.completedCnt + 1 }

/-- The lease of a task is taken back. -/
def release (i : ι) : Pool ι τ :=
  { p with
    status := Function.update p.status i (some .idle)
    leases := p.leases.erase i
    queue := p.queue ++ [i] }

def releaseAll (is : List ι) : Pool ι τ := is.foldl release p

/-! ### Consistency -/

def Idle (i : ι) : Prop := p.queue.count i = 1 ∧ i ∉ p.leases ∧ p.status i = some .idle

def Leased (i : ι) : Prop := p.queue.count i = 0 ∧ i ∈ p.leases ∧ p.status i = some .inProgress

def Finished (i : ι) : Prop := p.queue.count i = 0 ∧ i ∉ p.leases ∧ p.status i = some .completed

/-- **The three situations of a task**, of which the status tells which one it is. -/
def Placed (i : ι) : Prop := p.Idle i ∨ p.Leased i ∨ p.Finished i

/-- The number of completed tasks among these. -/
def completedIn (tasks : Finset ι) : ℕ := (tasks.filter fun i => p.status i = some .completed).card

structure Consistent (tasks : Finset ι) : Prop where
  placed : ∀ i ∈ tasks, p.Placed i
  queued : ∀ i ∈ p.queue, i ∈ tasks
  leased : ∀ i ∈ p.leases, i ∈ tasks
  known : ∀ i s, p.status i = some s → i ∈ tasks
  count : p.completedCnt = p.completedIn tasks

variable {p} {p' : Pool ι τ} {tasks : Finset ι} {i : ι}

lemma consistent_empty : (empty : Pool ι τ).Consistent ∅ where
  placed _ h := absurd h (Finset.notMem_empty _)
  queued _ h := absurd h List.not_mem_nil
  leased _ h := absurd h (AList.notMem_empty _)
  known _ _ h := nomatch h
  count := rfl

/-- A task is where it was when nothing about it changes. -/
lemma Placed.congr {j : ι} (h : p.Placed j) (hq : p'.queue.count j = p.queue.count j)
    (hl : j ∈ p'.leases ↔ j ∈ p.leases) (hs : p'.status j = p.status j) : p'.Placed j := by
  unfold Placed Idle Leased Finished
  rw [hq, hl, hs]
  exact h

omit [DecidableEq ι] in
lemma completedIn_congr (h : ∀ j ∈ tasks, p'.status j = some .completed ↔
    p.status j = some .completed) : p'.completedIn tasks = p.completedIn tasks := by
  unfold completedIn
  rw [Finset.filter_congr h]

namespace Consistent

lemma placed_of_mem_queue (h : p.Consistent tasks) (hi : i ∈ p.queue) : p.Idle i := by
  have hpos := List.count_pos_iff.2 hi
  rcases h.placed i (h.queued i hi) with hp | hp | hp
  · exact hp
  · exact absurd hp.1 hpos.ne'
  · exact absurd hp.1 hpos.ne'

lemma placed_of_mem_leases (h : p.Consistent tasks) (hi : i ∈ p.leases) : p.Leased i := by
  rcases h.placed i (h.leased i hi) with hp | hp | hp
  · exact absurd hi hp.2.1
  · exact hp
  · exact absurd hi hp.2.1

/-- A completed task is not out. -/
lemma notMem_leases (h : p.Consistent tasks) (hi : p.status i = some .completed) :
    i ∉ p.leases := by
  intro hl
  have := (h.placed_of_mem_leases hl).2.2
  rw [hi] at this
  cases this

/-- A task that is out is not completed. -/
lemma not_completed_of_lookup {β : Type*} {f : τ → β} {b : β} (h : p.Consistent tasks)
    (hl : (p.leases.lookup i).map f = some b) : p.status i ≠ some .completed := by
  intro hs
  obtain ⟨txn, ht, -⟩ := Option.map_eq_some_iff.1 hl
  exact h.notMem_leases hs (AList.lookup_isSome.1 (Option.isSome_of_eq_some ht))

/-- All tasks are completed when there are as many completed ones. -/
lemma all_completed (h : p.Consistent tasks) (hle : tasks.card ≤ p.completedCnt) :
    ∀ i ∈ tasks, p.status i = some .completed := by
  rw [h.count] at hle
  have heq := Finset.eq_of_subset_of_card_le (Finset.filter_subset _ tasks) hle
  intro i hi
  rw [← heq] at hi
  exact (Finset.mem_filter.1 hi).2

/-- Nothing is out then. -/
lemma leases_empty (h : p.Consistent tasks) (hle : tasks.card ≤ p.completedCnt) (i : ι) :
    i ∉ p.leases :=
  fun hi => h.notMem_leases (h.all_completed hle i (h.leased i hi)) hi

/-- A change at one task. -/
lemma update (h : p.Consistent tasks) (hi : p'.Placed i)
    (hq : ∀ j ≠ i, p'.queue.count j = p.queue.count j) (hl : ∀ j ≠ i, j ∈ p'.leases ↔ j ∈ p.leases)
    (hs : ∀ j ≠ i, p'.status j = p.status j)
    (hcount : p'.completedCnt = p'.completedIn (insert i tasks)) :
    p'.Consistent (insert i tasks) where
  placed j hj := by
    by_cases hji : j = i
    · exact hji ▸ hi
    · exact (h.placed j (Finset.mem_of_mem_insert_of_ne hj hji)).congr (hq j hji) (hl j hji)
        (hs j hji)
  queued j hj := by
    by_cases hji : j = i
    · exact hji ▸ Finset.mem_insert_self _ _
    · refine Finset.mem_insert_of_mem (h.queued j (List.count_pos_iff.1 ?_))
      rw [← hq j hji]
      exact List.count_pos_iff.2 hj
  leased j hj := by
    by_cases hji : j = i
    · exact hji ▸ Finset.mem_insert_self _ _
    · exact Finset.mem_insert_of_mem (h.leased j ((hl j hji).1 hj))
  known j s hj := by
    by_cases hji : j = i
    · exact hji ▸ Finset.mem_insert_self _ _
    · exact Finset.mem_insert_of_mem (h.known j s ((hs j hji).symm.trans hj))
  count := hcount

theorem add (h : p.Consistent tasks) (hi : i ∉ tasks) : (p.add i).Consistent (insert i tasks) := by
  have hqueue : i ∉ p.queue := fun hq => hi (h.queued i hq)
  refine h.update (Or.inl ⟨?_, fun hl => hi (h.leased i hl), ?_⟩) ?_ (fun _ _ => Iff.rfl) ?_ ?_
  · simp [Pool.add, List.count_eq_zero_of_not_mem hqueue]
  · exact Function.update_self _ _ _
  · intro j hj
    simp [Pool.add, hj.symm]
  · intro j hj
    exact Function.update_of_ne hj _ _
  · have hself : (p.add i).status i ≠ some .completed := by
      simp [Pool.add]
    show p.completedCnt = ((insert i tasks).filter _).card
    rw [Finset.filter_insert, if_neg hself, h.count]
    refine (completedIn_congr fun j hj => ?_).symm
    have hne : j ≠ i := fun he => hi (he ▸ hj)
    simp [Pool.add, hne]

/-- The task goes from one place to another and is not completed. -/
lemma move (h : p.Consistent tasks) (hmem : i ∈ tasks) (hi : p'.Placed i)
    (hq : ∀ j ≠ i, p'.queue.count j = p.queue.count j) (hl : ∀ j ≠ i, j ∈ p'.leases ↔ j ∈ p.leases)
    (hs : ∀ j ≠ i, p'.status j = p.status j) (hnot : p.status i ≠ some .completed)
    (hnot' : p'.status i ≠ some .completed) (hcount : p'.completedCnt = p.completedCnt) :
    p'.Consistent tasks := by
  rw [← Finset.insert_eq_self.2 hmem]
  refine h.update hi hq hl hs ?_
  rw [Finset.insert_eq_self.2 hmem, hcount, h.count]
  refine (completedIn_congr fun j _ => ?_).symm
  by_cases hji : j = i
  · subst hji
    exact iff_of_false hnot' hnot
  · rw [hs j hji]

theorem take (h : p.Consistent tasks) {t : τ} (ht : p.take t = some (i, p')) :
    p'.Consistent tasks := by
  unfold Pool.take at ht
  split at ht
  · cases ht
  · rename_i j queue hqueue
    cases ht
    obtain ⟨hone, -, hstatus⟩ := h.placed_of_mem_queue (i := i) (by simp [hqueue])
    rw [hqueue, List.count_cons_self] at hone
    refine h.move (h.queued i (by simp [hqueue])) (Or.inr (Or.inl ⟨?_, ?_, ?_⟩)) ?_ ?_ ?_ ?_ ?_ rfl
    · show queue.count i = 0
      omega
    · simp
    · exact Function.update_self _ _ _
    · intro j hj
      show queue.count j = p.queue.count j
      rw [hqueue, List.count_cons_of_ne hj.symm]
    · intro j hj
      simp [hj]
    · intro j hj
      exact Function.update_of_ne hj _ _
    · rw [hstatus]
      simp
    · simp

theorem complete (h : p.Consistent tasks) (hi : i ∈ p.leases) : (p.complete i).Consistent tasks := by
  obtain ⟨hzero, -, hstatus⟩ := h.placed_of_mem_leases hi
  have hmem := h.leased i hi
  have hs : ∀ j ≠ i, (p.complete i).status j = p.status j := fun j hj => Function.update_of_ne hj _ _
  have hself : (p.complete i).status i = some .completed := Function.update_self _ _ _
  rw [← Finset.insert_eq_self.2 hmem]
  refine h.update (Or.inr (Or.inr ⟨hzero, by simp [Pool.complete], hself⟩)) (fun _ _ => rfl) ?_ hs ?_
  · intro j hj
    simp [Pool.complete, AList.mem_erase, hj]
  · rw [Finset.insert_eq_self.2 hmem]
    -- the completed ones are the old ones and this one
    have hset : tasks.filter (fun j => (p.complete i).status j = some .completed) =
        insert i (tasks.filter fun j => p.status j = some .completed) := by
      ext j
      by_cases hji : j = i
      · subst hji
        simp [hself, hmem]
      · simp [hs j hji, hji]
    show p.completedCnt + 1 = (tasks.filter _).card
    rw [hset, Finset.card_insert_of_notMem (by simp [hstatus]), h.count]
    rfl

theorem release (h : p.Consistent tasks) (hi : i ∈ p.leases) : (p.release i).Consistent tasks := by
  obtain ⟨hzero, -, hstatus⟩ := h.placed_of_mem_leases hi
  refine h.move (h.leased i hi) (Or.inl ⟨?_, ?_, ?_⟩) ?_ ?_ ?_ ?_ ?_ rfl
  · simp [Pool.release, hzero]
  · simp [Pool.release]
  · exact Function.update_self _ _ _
  · intro j hj
    simp [Pool.release, hj.symm]
  · intro j hj
    simp [Pool.release, AList.mem_erase, hj]
  · intro j hj
    exact Function.update_of_ne hj _ _
  · rw [hstatus]
    simp
  · simp [Pool.release]

end Consistent

/-! ### Completed tasks stay completed -/

lemma exists_take {queue : List ι} (h : p.queue = i :: queue) (t : τ) :
    ∃ p', p.take t = some (i, p') ∧ p'.queue = queue ∧ p'.leases = p.leases.insert i t := by
  unfold Pool.take
  rw [h]
  exact ⟨_, rfl, rfl, rfl⟩

lemma take_completedCnt {t : τ} (ht : p.take t = some (i, p')) :
    p'.completedCnt = p.completedCnt := by
  unfold Pool.take at ht
  split at ht <;> cases ht
  rfl

lemma releaseAll_completedCnt (p : Pool ι τ) (is : List ι) :
    (p.releaseAll is).completedCnt = p.completedCnt := by
  unfold releaseAll
  induction is generalizing p with
  | nil => rfl
  | cons i is ih => exact ih (p.release i)

/-- No task that was completed is touched, and the counter does not go back. -/
structure Later (p p' : Pool ι τ) : Prop where
  completed : ∀ i, p.status i = some .completed → p'.status i = some .completed
  count : p.completedCnt ≤ p'.completedCnt

omit [DecidableEq ι] in
lemma Later.refl (p : Pool ι τ) : p.Later p := ⟨fun _ h => h, le_rfl⟩

omit [DecidableEq ι] in
lemma Later.trans {p'' : Pool ι τ} (h : p.Later p') (h' : p'.Later p'') : p.Later p'' :=
  ⟨fun i hi => h'.completed i (h.completed i hi), h.count.trans h'.count⟩

namespace Consistent

lemma later_add (h : p.Consistent tasks) (hi : i ∉ tasks) : p.Later (p.add i) := by
  refine ⟨fun j hj => ?_, le_rfl⟩
  have hne : j ≠ i := fun he => hi (he ▸ h.known j _ hj)
  exact (Function.update_of_ne hne _ _).trans hj

lemma later_take (h : p.Consistent tasks) {t : τ} (ht : p.take t = some (i, p')) : p.Later p' := by
  unfold Pool.take at ht
  split at ht
  · cases ht
  · rename_i j queue hqueue
    cases ht
    refine ⟨fun j hj => ?_, le_rfl⟩
    -- the task that goes out was idle
    have hne : j ≠ i := by
      rintro rfl
      have hidle := (h.placed_of_mem_queue (i := j) (by simp [hqueue])).2.2
      rw [hj] at hidle
      cases hidle
    exact (Function.update_of_ne hne _ _).trans hj

lemma later_complete (p : Pool ι τ) (i : ι) : p.Later (p.complete i) := by
  refine ⟨fun j hj => ?_, Nat.le_succ _⟩
  by_cases hji : j = i
  · exact hji ▸ Function.update_self _ _ _
  · exact (Function.update_of_ne hji _ _).trans hj

lemma later_release (h : p.Consistent tasks) (hi : i ∈ p.leases) : p.Later (p.release i) := by
  refine ⟨fun j hj => ?_, le_rfl⟩
  have hne : j ≠ i := by
    rintro rfl
    exact h.notMem_leases hj hi
  exact (Function.update_of_ne hne _ _).trans hj

/-- Leases are taken back, each once. -/
theorem releaseAll {is : List ι} (h : p.Consistent tasks) (hnd : is.Nodup)
    (hi : ∀ i ∈ is, i ∈ p.leases) :
    (p.releaseAll is).Consistent tasks ∧ p.Later (p.releaseAll is) := by
  induction is generalizing p with
  | nil => exact ⟨h, .refl p⟩
  | cons i is ih =>
    obtain ⟨hnot, hnd⟩ := List.nodup_cons.1 hnd
    have hmem := hi i List.mem_cons_self
    obtain ⟨hc, hl⟩ := ih (h.release hmem) hnd fun j hj => by
      have hne : j ≠ i := fun he => hnot (he ▸ hj)
      exact AList.mem_erase.2 ⟨hne, hi j (List.mem_cons_of_mem _ hj)⟩
    exact ⟨hc, (h.later_release hmem).trans hl⟩

end Consistent

/-! ### No lease comes back -/

lemma lookup_take {t x : τ} {j : ι} (ht : p.take t = some (i, p'))
    (h : p'.leases.lookup j = some x) : p.leases.lookup j = some x ∨ x = t := by
  unfold Pool.take at ht
  split at ht <;> cases ht
  by_cases hji : j = i
  · subst hji
    rw [AList.lookup_insert] at h
    exact Or.inr (Option.some.inj h).symm
  · rw [AList.lookup_insert_ne hji] at h
    exact Or.inl h

lemma lookup_erase {x : τ} {l : AList fun _ : ι => τ} {j : ι} (h : (l.erase i).lookup j = some x) :
    l.lookup j = some x := by
  by_cases hji : j = i
  · subst hji
    rw [AList.lookup_erase] at h
    cases h
  · rwa [AList.lookup_erase_ne hji] at h

lemma lookup_releaseAll {is : List ι} {x : τ} {j : ι}
    (h : (p.releaseAll is).leases.lookup j = some x) : p.leases.lookup j = some x := by
  induction is generalizing p with
  | nil => exact h
  | cons i is ih => exact lookup_erase (ih h)

lemma lookup_releaseAll_of_mem {is : List ι} {j : ι} (hj : j ∈ is) :
    (p.releaseAll is).leases.lookup j = none := by
  induction is generalizing p with
  | nil => exact absurd hj List.not_mem_nil
  | cons i is ih =>
    rcases List.mem_cons.1 hj with rfl | hj
    · rw [Option.eq_none_iff_forall_ne_some]
      intro x hx
      have herase : (p.leases.erase j).lookup j = some x := lookup_releaseAll (p := p.release j) hx
      rw [AList.lookup_erase] at herase
      cases herase
    · exact ih hj

/-- A task that is not completed waits when none is out. -/
lemma Consistent.exists_queue (h : p.Consistent tasks) (hl : ∀ i, i ∉ p.leases)
    (hlt : p.completedCnt < tasks.card) : ∃ i queue, p.queue = i :: queue := by
  rw [h.count] at hlt
  obtain ⟨i, hi, hnot⟩ : ∃ i ∈ tasks, p.status i ≠ some .completed := by
    by_contra hall
    push Not at hall
    exact absurd hlt (by rw [completedIn, Finset.filter_true_of_mem hall]; exact lt_irrefl _)
  obtain ⟨hone, -⟩ : p.Idle i := by
    rcases h.placed i hi with hp | hp | hp
    · exact hp
    · exact absurd hp.2.1 (hl i)
    · exact absurd hp.2.2 hnot
  obtain ⟨j, queue, hq⟩ := List.exists_cons_of_ne_nil
    (List.ne_nil_of_mem (List.count_pos_iff.1 (hone ▸ Nat.one_pos)))
  exact ⟨j, queue, hq⟩

/-- Only `complete` completes a task. -/
lemma completed_of_take {t : τ} {j : ι} (ht : p.take t = some (i, p'))
    (h : p'.status j = some .completed) : p.status j = some .completed := by
  unfold Pool.take at ht
  split at ht <;> cases ht
  by_cases hji : j = i
  · subst hji
    simp at h
  · simpa [hji] using h

lemma completed_of_releaseAll {is : List ι} {j : ι}
    (h : (p.releaseAll is).status j = some .completed) : p.status j = some .completed := by
  induction is generalizing p with
  | nil => exact h
  | cons i is ih =>
    have hrel := ih h
    by_cases hji : j = i
    · subst hji
      simp [release] at hrel
    · simpa [release, hji] using hrel

end Pool

end RaftLabs.Lib
