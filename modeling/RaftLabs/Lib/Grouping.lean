import Mathlib.Data.Finset.Union
import Mathlib.Data.List.SplitBy
import Mathlib.Data.List.TakeWhile
import Mathlib.Data.Multiset.Bind
import Mathlib.Tactic

/-!
# Grouping by a key

Two ways to reduce the elements with equal keys to one result each.  `reduceRuns` works on the runs
of equal keys that stand next to each other in a list; `reduceKeys` takes all elements with a key,
wherever they stand, and has no order.  They agree on a sorted list.  `reduceKeys` may be computed on
any permutation, and separately on the parts of a partition that does not separate equal keys.
-/

namespace RaftLabs.Lib.Grouping

variable {α β κ ι : Type*} [DecidableEq κ] (key : α → κ) (f : κ → List α → β)

/-- One result for each run of equal keys. -/
def reduceRuns (l : List α) : List β :=
  (l.splitBy fun a b => key a == key b).filterMap fun run => run.head?.map fun a => f (key a) run

/-- One result for each key, of all elements that have it. -/
def reduceKeys (l : List α) : Multiset β :=
  (l.map key).toFinset.val.map fun k => f k (l.filter fun a => key a = k)

variable {key f} {l l' : List α} {a : α}

/-! ### Runs -/

lemma key_eq_of_mem_takeWhile {k : κ} {b : α} (h : b ∈ l.takeWhile fun b => key b = k) :
    key b = k := by
  simpa using List.mem_takeWhile_imp h

/-- What follows the elements with a key starts with another one. -/
lemma key_ne_of_head? {k : κ} {b : α} (h : b ∈ (l.dropWhile fun b => key b = k).head?) :
    key b ≠ k := by
  have hnot := List.head?_dropWhile_not (fun b => decide (key b = k)) l
  rw [Option.mem_def.1 h] at hnot
  exact of_decide_eq_false hnot

/-- The first run goes up to the first other key. -/
lemma splitBy_key_cons (key : α → κ) (a : α) (l : List α) :
    (a :: l).splitBy (fun a b => key a == key b) =
      (a :: l.takeWhile fun b => key b = key a) ::
        (l.dropWhile fun b => key b = key a).splitBy fun a b => key a == key b := by
  have hrun : ∀ b ∈ a :: l.takeWhile fun b => key b = key a, key b = key a := by
    intro b hb
    rcases List.mem_cons.1 hb with rfl | hb
    · rfl
    · exact key_eq_of_mem_takeWhile hb
  have hchain : (a :: l.takeWhile fun b => key b = key a).IsChain
      fun a b => (key a == key b) = true := by
    refine (List.pairwise_of_forall_mem_list fun b hb c hc => ?_).isChain
    simp [hrun b hb, hrun c hc]
  have hend : ∀ b ∈ (a :: l.takeWhile fun b => key b = key a).getLast?,
      ∀ c ∈ (l.dropWhile fun b => key b = key a).head?, (key b == key c) = false := by
    intro b hb c hc
    have hne := key_ne_of_head? hc
    simpa [hrun b (List.mem_of_getLast? hb)] using hne.symm
  calc (a :: l).splitBy (fun a b => key a == key b)
      = ((a :: l.takeWhile fun b => key b = key a) ++
          l.dropWhile fun b => key b = key a).splitBy fun a b => key a == key b := by
        rw [List.cons_append, List.takeWhile_append_dropWhile]
    _ = _ := by
        rw [List.splitBy_append hend, List.splitBy_of_isChain (List.cons_ne_nil _ _) hchain]
        rfl

variable (key f) in
lemma reduceRuns_cons (a : α) (l : List α) :
    reduceRuns key f (a :: l) = f (key a) (a :: l.takeWhile fun b => key b = key a) ::
      reduceRuns key f (l.dropWhile fun b => key b = key a) := by
  rw [reduceRuns, splitBy_key_cons, List.filterMap_cons]
  rfl

/-! ### Sorted lists -/

section Sorted

variable {le : κ → κ → Prop} [Std.Antisymm le]

/-- In a sorted list no key comes back after its run. -/
lemma ne_of_mem_dropWhile (h : (a :: l).Pairwise fun a b => le (key a) (key b)) {b : α}
    (hb : b ∈ l.dropWhile fun b => key b = key a) : key b ≠ key a := by
  obtain ⟨hfirst, hl⟩ := List.pairwise_cons.1 h
  have hsub := List.dropWhile_sublist (fun b => decide (key b = key a)) (l := l)
  cases hrest : l.dropWhile fun b => key b = key a with
  | nil =>
    rw [hrest] at hb
    exact absurd hb List.not_mem_nil
  | cons c rest =>
    have hc : key c ≠ key a := key_ne_of_head? (l := l) (by simp [hrest])
    rw [hrest] at hb hsub
    rcases List.mem_cons.1 hb with rfl | hb
    · exact hc
    · intro he
      -- the other key would stand between two equal ones
      have hcb := (List.pairwise_cons.1 (hl.sublist hsub)).1 b hb
      have hac := hfirst c (hsub.subset List.mem_cons_self)
      exact hc (Std.Antisymm.antisymm _ _ (he ▸ hcb) hac)

/-- The first run has all elements with its key. -/
lemma filter_key_first (h : (a :: l).Pairwise fun a b => le (key a) (key b)) :
    (a :: l).filter (fun b => key b = key a) = a :: l.takeWhile fun b => key b = key a := by
  rw [List.filter_cons_of_pos (by simp)]
  congr 1
  calc l.filter (fun b => key b = key a)
      = (l.takeWhile fun b => key b = key a).filter (fun b => key b = key a) ++
          (l.dropWhile fun b => key b = key a).filter (fun b => key b = key a) := by
        rw [← List.filter_append, List.takeWhile_append_dropWhile]
    _ = l.takeWhile fun b => key b = key a := by
        rw [List.filter_eq_self.2 fun b hb => decide_eq_true (key_eq_of_mem_takeWhile hb),
          List.filter_eq_nil_iff.2 fun b hb => by simpa using ne_of_mem_dropWhile h hb,
          List.append_nil]

/-- The other keys have their elements after the first run. -/
lemma filter_key_rest {k : κ} (hk : k ≠ key a) :
    (a :: l).filter (fun b => key b = k) =
      (l.dropWhile fun b => key b = key a).filter fun b => key b = k := by
  rw [List.filter_cons_of_neg (by simpa using hk.symm)]
  calc l.filter (fun b => key b = k)
      = (l.takeWhile fun b => key b = key a).filter (fun b => key b = k) ++
          (l.dropWhile fun b => key b = key a).filter (fun b => key b = k) := by
        rw [← List.filter_append, List.takeWhile_append_dropWhile]
    _ = (l.dropWhile fun b => key b = key a).filter fun b => key b = k := by
        rw [List.filter_eq_nil_iff.2 fun b hb => ?_, List.nil_append]
        simpa [key_eq_of_mem_takeWhile hb] using hk.symm

/-- **The runs of a sorted list are its groups.** -/
theorem reduceRuns_eq_reduceKeys (h : l.Pairwise fun a b => le (key a) (key b)) :
    (reduceRuns key f l : Multiset β) = reduceKeys key f l := by
  induction hn : l.length using Nat.strong_induction_on generalizing l with
  | _ n ih =>
    cases l with
    | nil => rfl
    | cons a l =>
      set rest := l.dropWhile fun b => key b = key a with hrest
      have hsub : rest.Sublist l := List.dropWhile_sublist _
      have hrec := ih rest.length (by rw [← hn]; exact Nat.lt_succ_of_le hsub.length_le)
        ((List.pairwise_cons.1 h).2.sublist hsub) rfl
      have hnot : key a ∉ (rest.map key).toFinset := by
        rw [List.mem_toFinset, List.mem_map]
        rintro ⟨b, hb, he⟩
        exact ne_of_mem_dropWhile h hb he
      have hkeys : ((a :: l).map key).toFinset = insert (key a) (rest.map key).toFinset := by
        ext k
        by_cases hk : k = key a
        · simp [hk]
        · have hmem : (∃ b ∈ l, key b = k) ↔ ∃ b ∈ rest, key b = k := by
            refine ⟨?_, fun ⟨b, hb, he⟩ => ⟨b, hsub.subset hb, he⟩⟩
            rintro ⟨b, hb, he⟩
            have hb' : b ∈ (a :: l).filter fun b => key b = k :=
              List.mem_filter.2 ⟨List.mem_cons_of_mem a hb, decide_eq_true he⟩
            rw [filter_key_rest hk] at hb'
            exact ⟨b, (List.mem_filter.1 hb').1, he⟩
          simp [hk, hmem]
      rw [reduceRuns_cons, ← Multiset.cons_coe, ← hrest, hrec, reduceKeys, reduceKeys, hkeys,
        Finset.insert_val_of_notMem hnot, Multiset.map_cons, filter_key_first h]
      congr 1
      refine Multiset.map_congr rfl fun k hk => ?_
      have hne : k ≠ key a := fun he => hnot (he ▸ hk)
      rw [filter_key_rest hne]

end Sorted

/-! ### Permutations and partitions -/

theorem reduceKeys_perm (hf : ∀ k l l', l.Perm l' → f k l = f k l') (h : l.Perm l') :
    reduceKeys key f l = reduceKeys key f l' := by
  unfold reduceKeys
  rw [List.toFinset_eq_of_perm _ _ (h.map key)]
  exact Multiset.map_congr rfl fun k _ => hf k _ _ (h.filter _)

/-- **Parts that do not separate equal keys may be reduced one by one.** -/
theorem bind_reduceKeys [DecidableEq ι] (part : κ → ι) {s : Finset ι}
    (hs : ∀ a ∈ l, part (key a) ∈ s) :
    (s.val.bind fun i => reduceKeys key f (l.filter fun a => part (key a) = i)) =
      reduceKeys key f l := by
  have hdisj : (s : Set ι).PairwiseDisjoint fun i =>
      (l.map key).toFinset.filter fun k => part k = i := by
    intro i _ j _ hij
    rw [Function.onFun, Finset.disjoint_filter]
    exact fun k _ hi hj => hij (hi.symm.trans hj)
  have hkeys : s.disjiUnion _ hdisj = (l.map key).toFinset := by
    ext k
    simp only [Finset.mem_disjiUnion, Finset.mem_filter, List.mem_toFinset, List.mem_map]
    constructor
    · rintro ⟨i, -, hk, -⟩
      exact hk
    · rintro ⟨a, ha, rfl⟩
      exact ⟨_, hs a ha, ⟨a, ha, rfl⟩, rfl⟩
  -- in its part a key has all its elements
  have hpart : ∀ i, reduceKeys key f (l.filter fun a => part (key a) = i) =
      ((l.map key).toFinset.filter fun k => part k = i).val.map
        fun k => f k (l.filter fun a => key a = k) := by
    intro i
    have hset : ((l.filter fun a => part (key a) = i).map key).toFinset =
        (l.map key).toFinset.filter fun k => part k = i := by
      ext k
      simp only [List.mem_toFinset, List.mem_map, List.mem_filter, Finset.mem_filter,
        decide_eq_true_iff]
      constructor
      · rintro ⟨a, ⟨ha, hi⟩, rfl⟩
        exact ⟨⟨a, ha, rfl⟩, hi⟩
      · rintro ⟨⟨a, ha, rfl⟩, hi⟩
        exact ⟨a, ⟨ha, hi⟩, rfl⟩
    rw [reduceKeys, hset]
    refine Multiset.map_congr rfl fun k hk => ?_
    have hi : part k = i := (Finset.mem_filter.1 (Finset.mem_def.2 hk)).2
    rw [List.filter_filter]
    congr 1
    refine List.filter_congr fun a _ => ?_
    by_cases ha : key a = k
    · simp [ha, hi]
    · simp [ha]
  simp only [hpart]
  rw [← Multiset.map_bind]
  exact congrArg (fun t : Finset κ => t.val.map _) hkeys

/-- Parts that are empty may be left out. -/
lemma flatMap_filter_ne_nil [DecidableEq β] (l : List α) (g : α → List β) :
    (l.filter fun a => g a ≠ []).flatMap g = l.flatMap g := by
  induction l with
  | nil => rfl
  | cons a l ih =>
    by_cases h : g a = []
    · simp [h, ← ih]
    · simp [h, ← ih]

end RaftLabs.Lib.Grouping
