import RaftLabs.Lib.GoString
import RaftLabs.Porcupine.Operations

/-!
# The model of the key/value services

`models/kv.go`: the specification that the tests of `kvraft` and `shardkv` give to the checker.  It is
about a single key, and histories are partitioned by keys.  That is enough, for linearizability is local:
a history is linearizable as one map exactly if it is so for every key (`linearizable_iff_forall_key`).
So the checker accepts exactly the histories that are linearizable as one map
(`checkOperations_kvModel`).
-/

namespace RaftLabs.Porcupine

open Lib

/-! ### Locality -/

section Locality

variable {S I O K : Type} [DecidableEq K] {key : I → K} {init : S} {step : S → I → O → Bool × S}
variable {history order : List (Operation I O)} {states : K → S}

/-- Every key has a state of its own. -/
def perKey (key : I → K) (step : S → I → O → Bool × S) (states : K → S) (input : I) (output : O) :
    Bool × (K → S) :=
  let (ok, state) := step (states (key input)) input output
  (ok, Function.update states (key input) state)

/-- The operations on a key. -/
def onKey (key : I → K) (history : List (Operation I O)) (k : K) : List (Operation I O) :=
  history.filter fun op => key op.input = k

lemma Legal.onKey (hlegal : Legal (perKey key step) states order) (k : K) :
    Legal step (states k) (onKey key order k) := by
  induction order generalizing states with
  | nil => trivial
  | cons op order ih =>
    obtain ⟨hok, hlegal⟩ := hlegal
    have ih := ih hlegal
    unfold Porcupine.onKey at ih ⊢
    by_cases hk : key op.input = k
    · subst hk
      rw [List.filter_cons_of_pos (by simp)]
      simp only [perKey, Function.update_self] at ih
      exact ⟨hok, ih⟩
    · rw [List.filter_cons_of_neg (by simpa using hk)]
      simp only [perKey, Function.update_of_ne (Ne.symm hk)] at ih
      exact ih

/-- An operation that comes first for its key can come first of all, if no return was before its call. -/
lemma exists_first (htimes : ∀ op ∈ history, op.call ≤ op.returned) (hne : history ≠ [])
    {orders : K → List (Operation I O)} (hperm : ∀ k, (orders k).Perm (onKey key history k))
    (hrealTime : ∀ k, (orders k).Pairwise fun a b => ¬ b.returned < a.call) :
    ∃ op rest, orders (key op.input) = op :: rest ∧ op ∈ history ∧
      ∀ b ∈ history, ¬ b.returned < op.call := by
  -- the operations on the key of the one that returned first
  obtain ⟨r, hr⟩ : ∃ r, List.argmin Operation.returned history = some r :=
    Option.ne_none_iff_exists'.1 (mt List.argmin_eq_none.1 hne)
  have hmem : r ∈ history := List.argmin_mem hr
  have hmin : ∀ b ∈ history, r.returned ≤ b.returned := fun b hb => List.le_of_mem_argmin hb hr
  have hr : r ∈ orders (key r.input) :=
    (hperm _).symm.subset (List.mem_filter.2 ⟨hmem, by simp⟩)
  cases horder : orders (key r.input) with
  | nil =>
    rw [horder] at hr
    cases hr
  | cons op rest =>
    have hop : op ∈ onKey key history (key r.input) :=
      (hperm _).subset (horder ▸ List.mem_cons_self)
    obtain ⟨hop, hkey⟩ := List.mem_filter.1 hop
    have hkey : key op.input = key r.input := by simpa using hkey
    have hcall : op.call ≤ r.returned := by
      have hpair := hrealTime (key r.input)
      rw [horder] at hr hpair
      rcases List.mem_cons.1 hr with rfl | hr
      · exact htimes _ hop
      · exact not_lt.1 ((List.pairwise_cons.1 hpair).1 r hr)
    refine ⟨op, rest, by rw [hkey, horder], hop, fun b hb => ?_⟩
    have := hmin b hb
    omega

/-- Orders for the keys are merged into one. -/
lemma exists_merge (htimes : ∀ op ∈ history, op.call ≤ op.returned)
    {orders : K → List (Operation I O)} (hperm : ∀ k, (orders k).Perm (onKey key history k))
    (hrealTime : ∀ k, (orders k).Pairwise fun a b => ¬ b.returned < a.call)
    (hlegal : ∀ k, Legal step (states k) (orders k)) :
    ∃ order, order.Perm history ∧ (order.Pairwise fun a b => ¬ b.returned < a.call) ∧
      Legal (perKey key step) states order := by
  induction hlen : history.length generalizing history orders states with
  | zero =>
    rw [List.eq_nil_of_length_eq_zero hlen]
    exact ⟨[], .refl _, .nil, trivial⟩
  | succ len ih =>
    have hne : history ≠ [] := by
      rintro rfl
      cases hlen
    obtain ⟨op, rest, horder, hop, hfirst⟩ := exists_first htimes hne hperm hrealTime
    obtain ⟨s, t, rfl⟩ := List.append_of_mem hop
    have hmiddle : (s ++ op :: t).Perm (op :: (s ++ t)) := List.perm_middle
    have hsub : ∀ b ∈ s ++ t, b ∈ s ++ op :: t := fun b hb =>
      hmiddle.symm.subset (List.mem_cons_of_mem _ hb)
    have hl := hlegal (key op.input)
    rw [horder] at hl
    -- the operation is taken from its order, and the state of its key goes on
    have hperm' : ∀ k, (Function.update orders (key op.input) rest k).Perm (onKey key (s ++ t) k) := by
      intro k
      have hk := (hperm k).trans (hmiddle.filter _)
      by_cases heq : k = key op.input
      · subst heq
        rw [horder, List.filter_cons_of_pos (by simp)] at hk
        rw [Function.update_self]
        exact (List.perm_cons op).1 hk
      · rw [List.filter_cons_of_neg (by simpa using Ne.symm heq)] at hk
        rw [Function.update_of_ne heq]
        exact hk
    have hrealTime' : ∀ k, (Function.update orders (key op.input) rest k).Pairwise
        fun a b => ¬ b.returned < a.call := by
      intro k
      by_cases heq : k = key op.input
      · subst heq
        have hpair := hrealTime (key op.input)
        rw [horder] at hpair
        rw [Function.update_self]
        exact (List.pairwise_cons.1 hpair).2
      · rw [Function.update_of_ne heq]
        exact hrealTime k
    have hlegal' : ∀ k, Legal step ((perKey key step states op.input op.output).2 k)
        (Function.update orders (key op.input) rest k) := by
      intro k
      by_cases heq : k = key op.input
      · subst heq
        simp only [perKey, Function.update_self]
        exact hl.2
      · simp only [perKey, Function.update_of_ne heq]
        exact hlegal k
    have hlen' : (s ++ t).length = len := by
      simp only [List.length_append, List.length_cons] at hlen ⊢
      omega
    obtain ⟨order, ho, hpair, hlegal⟩ :=
      ih (fun b hb => htimes b (hsub b hb)) hperm' hrealTime' hlegal' hlen'
    refine ⟨op :: order, (ho.cons op).trans hmiddle.symm, ?_, hl.1, hlegal⟩
    exact List.pairwise_cons.2 ⟨fun b hb => hfirst b (hsub b (ho.subset hb)), hpair⟩

/-- **Linearizability is local**: it is enough to look at the keys one by one. -/
theorem linearizable_iff_forall_key (htimes : ∀ op ∈ history, op.call ≤ op.returned) :
    Linearizable (fun _ => init) (perKey key step) history ↔
      ∀ k, Linearizable init step (onKey key history k) := by
  constructor
  · rintro ⟨order, ho⟩ k
    exact ⟨onKey key order k, ho.perm.filter _, ho.realTime.filter _, ho.legal.onKey k⟩
  · intro h
    choose orders ho using h
    obtain ⟨order, hperm, hpair, hlegal⟩ := exists_merge htimes
      (fun k => (ho k).perm) (fun k => (ho k).realTime) fun k => (ho k).legal
    exact ⟨order, hperm, hpair, hlegal⟩

end Locality

/-! ### `KvModel` -/

/-- `op` is `0` for get, `1` for put, `2` for append. -/
structure KvInput where
  op : UInt8
  key : GoString
  value : GoString
  deriving DecidableEq, Inhabited

structure KvOutput where
  value : GoString
  deriving DecidableEq, Inhabited

/-- The step for a single key. -/
def kvStep (st : GoString) (inp : KvInput) (out : KvOutput) : Bool × GoString :=
  if inp.op = 0 then (out.value = st, st)
  else if inp.op = 1 then (true, inp.value)
  else if inp.op = 2 then (true, st ++ inp.value)
  else (out.value = st, st ++ inp.value)

/-- The operations on every key that occurs, by the order of the keys. -/
def kvPartition (history : List (Operation KvInput KvOutput)) : List (List (Operation KvInput KvOutput)) :=
  let keys := (history.map fun op => op.input.key).dedup.mergeSort
  keys.map (onKey KvInput.key history)

def kvModel : Model GoString KvInput KvOutput where
  partition := kvPartition
  init := []
  step := kvStep
  equal := fun state1 state2 => state1 = state2

lemma kvModel_congruent : kvModel.Congruent where
  ok := by
    intro s t h v w
    rw [show s = t by simpa [kvModel] using h]
  step := by
    intro s t h v w
    rw [show s = t by simpa [kvModel] using h]
    simp [kvModel]

lemma mem_kvPartition {history sub : List (Operation KvInput KvOutput)} : sub ∈ kvPartition history ↔
    ∃ op ∈ history, sub = onKey KvInput.key history op.input.key := by
  simp only [kvPartition, List.mem_map, List.mem_mergeSort, List.mem_dedup]
  constructor
  · rintro ⟨-, ⟨op, hop, rfl⟩, rfl⟩
    exact ⟨op, hop, rfl⟩
  · rintro ⟨op, hop, rfl⟩
    exact ⟨_, ⟨op, hop, rfl⟩, rfl⟩

/-- The history is linearizable as one map, in which keys that are not there read as the empty string. -/
def KvLinearizable (history : List (Operation KvInput KvOutput)) : Prop :=
  Linearizable (fun _ => []) (perKey KvInput.key kvStep) history

lemma kvLinearizable_iff {history : List (Operation KvInput KvOutput)}
    (htimes : ∀ op ∈ history, op.call ≤ op.returned) : KvLinearizable history ↔
      ∀ sub ∈ kvPartition history, Linearizable kvModel.init kvModel.step sub := by
  unfold KvLinearizable
  rw [linearizable_iff_forall_key htimes]
  constructor
  · intro h sub hsub
    obtain ⟨op, -, rfl⟩ := mem_kvPartition.1 hsub
    exact h _
  · intro h k
    by_cases hk : ∃ op ∈ history, op.input.key = k
    · obtain ⟨op, hop, rfl⟩ := hk
      exact h _ (mem_kvPartition.2 ⟨op, hop, rfl⟩)
    · -- a key that does not occur
      have hnil : onKey KvInput.key history k = [] := by
        simpa [onKey, List.filter_eq_nil_iff] using hk
      rw [hnil]
      exact ⟨[], .refl _, .nil, trivial⟩

lemma kvPartition_ne_nil {history : List (Operation KvInput KvOutput)} (hne : history ≠ []) :
    kvModel.partition history ≠ [] := by
  obtain ⟨op, hop⟩ := List.exists_mem_of_ne_nil _ hne
  exact List.ne_nil_of_mem (mem_kvPartition.2 ⟨op, hop, rfl⟩)

lemma times_kvPartition {history : List (Operation KvInput KvOutput)}
    (htimes : ∀ op ∈ history, op.call ≤ op.returned) :
    ∀ sub ∈ kvModel.partition history, ∀ op ∈ sub, op.call ≤ op.returned := by
  intro sub hsub op hop
  obtain ⟨op', -, rfl⟩ := mem_kvPartition.1 hsub
  exact htimes op (List.mem_filter.1 hop).1

/-- **The tests are right**: the checker accepts exactly the histories that are linearizable as one
map. -/
theorem checkOperations_kvModel
    {sort : List (Entry (KvInput ⊕ KvOutput)) → List (Entry (KvInput ⊕ KvOutput))} (hsort : Sorts sort)
    {arrive : List Bool → List Bool} (harrive : ∀ results, (arrive results).Perm results)
    {history : List (Operation KvInput KvOutput)} (hne : history ≠ [])
    (htimes : ∀ op ∈ history, op.call ≤ op.returned) (verbose : Bool) :
    ∃ enough, ∀ fuel ≥ enough, ∃ result ∈ [CheckResult.ok, .illegal],
      checkOperations kvModel sort arrive fuel history verbose = some result ∧
        (result = .ok ↔ KvLinearizable history) := by
  rw [kvLinearizable_iff htimes]
  exact hsort.checkOperations_eq harrive kvModel_congruent (kvPartition_ne_nil hne)
    (times_kvPartition htimes) verbose

/-- Insertion sort does what is asked of `sort.Sort`. -/
lemma sorts_insertionSort {I O : Type} :
    Sorts (List.insertionSort fun a b : Entry (I ⊕ O) => less b a = false) := by
  have htotal : Std.Total fun a b : Entry (I ⊕ O) => less b a = false := by
    refine ⟨fun a b => ?_⟩
    unfold less
    cases ha : a.kind <;> cases hb : b.kind <;> grind
  have htrans : IsTrans (Entry (I ⊕ O)) fun a b => less b a = false := by
    refine ⟨fun a b c hab hbc => ?_⟩
    unfold less at *
    cases ha : a.kind <;> cases hb : b.kind <;> cases hc : c.kind <;> grind
  exact ⟨fun l => List.perm_insertionSort _ l, fun l => List.pairwise_insertionSort _ l⟩

/-- A put, and a get that overlaps with it and a later append; it reads what was put. -/
def overlapping : List (Operation KvInput KvOutput) :=
  [⟨⟨1, [97], [1]⟩, 0, ⟨[]⟩, 10⟩, ⟨⟨0, [97], []⟩, 5, ⟨[1]⟩, 30⟩, ⟨⟨2, [97], [2]⟩, 20, ⟨[]⟩, 40⟩]

theorem checkOperations_kvModel_overlapping : ∃ enough, ∀ fuel ≥ enough,
    ∃ result ∈ [CheckResult.ok, .illegal],
      checkOperations kvModel (List.insertionSort fun a b => less b a = false) id fuel overlapping false =
          some result ∧ (result = .ok ↔ KvLinearizable overlapping) :=
  checkOperations_kvModel sorts_insertionSort (fun _ => .refl _) (by decide) (by decide) false

/-- The history is not empty: without a partition `checkParallel` waits for a result for ever. -/
lemma checkOperations_kvModel_nil
    (sort : List (Entry (KvInput ⊕ KvOutput)) → List (Entry (KvInput ⊕ KvOutput))) (fuel : ℕ)
    (verbose : Bool) : checkOperations kvModel sort id fuel [] verbose = none := by
  simp [checkOperations, checkParallel, kvModel, kvPartition, collect]

example : checkOperations kvModel (List.insertionSort fun a b => less b a = false) id 50 overlapping
    false = some .ok := by
  decide +kernel

end RaftLabs.Porcupine
