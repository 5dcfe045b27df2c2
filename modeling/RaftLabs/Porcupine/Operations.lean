import RaftLabs.Porcupine.Entries

/-!
# Histories of operations

`CheckOperations` gets the operations with the times of their calls and returns, sorts these into a
history for every partition, and checks the partitions.  It answers `Ok` exactly if every partition has a
linearization (`Sorts.checkOperations_eq`): an order that the model allows, in which no operation comes
before one that had returned before it was called.
-/

namespace RaftLabs.Porcupine

open Lib

variable {S I O : Type} {model : Model S I O}

/-! ### Sorting by time -/

namespace Operation

variable (op : Operation I O) (id : ℕ)

def callEntry : Entry (I ⊕ O) := ⟨.callEntry, .inl op.input, id, op.call⟩

def returnEntry : Entry (I ⊕ O) := ⟨.returnEntry, .inr op.output, id, op.returned⟩

end Operation

/-- `byTime.Less`: at the same time, calls come before returns. -/
def less (a b : Entry (I ⊕ O)) : Bool :=
  if a.time ≠ b.time then a.time < b.time else a.kind = .callEntry && b.kind = .returnEntry

/-- What `sort.Sort` promises; it need not be stable. -/
structure Sorts (sort : List (Entry (I ⊕ O)) → List (Entry (I ⊕ O))) : Prop where
  perm : ∀ l, (sort l).Perm l
  sorted : ∀ l, (sort l).Pairwise fun a b => less b a = false

/-- The entries before they are sorted, numbered from `id` on. -/
def entriesFrom : ℕ → List (Operation I O) → List (Entry (I ⊕ O))
  | _, [] => []
  | id, elem :: history => elem.callEntry id :: elem.returnEntry id :: entriesFrom (id + 1) history

def makeEntries (sort : List (Entry (I ⊕ O)) → List (Entry (I ⊕ O))) (history : List (Operation I O)) :
    List (Entry (I ⊕ O)) :=
  sort (entriesFrom 0 history)

lemma mem_entriesFrom {id : ℕ} {history : List (Operation I O)} {e : Entry (I ⊕ O)} :
    e ∈ entriesFrom id history ↔ ∃ (k : ℕ) (op : Operation I O), history[k]? = some op ∧
      (e = op.callEntry (id + k) ∨ e = op.returnEntry (id + k)) := by
  induction history generalizing id with
  | nil => simp [entriesFrom]
  | cons elem history ih =>
    simp only [entriesFrom, List.mem_cons, ih]
    constructor
    · rintro (rfl | rfl | ⟨k, op, hk, he⟩)
      · exact ⟨0, elem, rfl, Or.inl rfl⟩
      · exact ⟨0, elem, rfl, Or.inr rfl⟩
      · exact ⟨k + 1, op, hk, by rwa [← Nat.add_assoc, Nat.add_right_comm]⟩
    · rintro ⟨k, op, hk, he⟩
      cases k with
      | zero =>
        cases hk
        exact he.imp_right Or.inl
      | succ k =>
        refine Or.inr (Or.inr ⟨k, op, hk, ?_⟩)
        rwa [Nat.add_right_comm]

lemma length_entriesFrom (id : ℕ) (history : List (Operation I O)) :
    (entriesFrom id history).length = 2 * history.length := by
  induction history generalizing id with
  | nil => rfl
  | cons elem history ih =>
    simp only [entriesFrom, List.length_cons, ih]
    omega

lemma nodup_entriesFrom (id : ℕ) (history : List (Operation I O)) : (entriesFrom id history).Nodup := by
  induction history generalizing id with
  | nil => exact List.nodup_nil
  | cons elem history ih =>
    have hid : ∀ e ∈ entriesFrom (id + 1) history, e.id ≠ id := by
      intro e he
      obtain ⟨k, op, -, rfl | rfl⟩ := mem_entriesFrom.1 he <;>
        simp only [Operation.callEntry, Operation.returnEntry] <;> omega
    refine List.nodup_cons.2 ⟨fun hmem => ?_, List.nodup_cons.2 ⟨fun hmem => hid _ hmem rfl, ih _⟩⟩
    rcases List.mem_cons.1 hmem with heq | hmem
    · cases congrArg Entry.kind heq
    · exact hid _ hmem rfl

section Entries

variable {sort : List (Entry (I ⊕ O)) → List (Entry (I ⊕ O))} (hsort : Sorts sort)
variable {history : List (Operation I O)} {op op' : Operation I O} {e : Entry (I ⊕ O)} {k k' p m : ℕ}
include hsort

/-- **Places are times**: a call stands before a return if the return was not earlier. -/
lemma Sorts.lt_iff (hp : (makeEntries sort history)[p]? = some (op.callEntry k))
    (hm : (makeEntries sort history)[m]? = some (op'.returnEntry k')) :
    p < m ↔ ¬ op'.returned < op.call := by
  obtain ⟨hp', hpe⟩ := List.getElem?_eq_some_iff.1 hp
  obtain ⟨hm', hme⟩ := List.getElem?_eq_some_iff.1 hm
  have hsorted := List.pairwise_iff_getElem.1 (hsort.sorted (entriesFrom 0 history))
  constructor
  · intro hlt
    have h := hsorted p m hp' hm' hlt
    unfold makeEntries at hpe hme
    rw [hpe, hme] at h
    simp only [less, Operation.callEntry, Operation.returnEntry] at h
    grind
  · intro hle
    by_contra hnot
    rcases (Nat.not_lt.1 hnot).eq_or_lt with rfl | hlt
    · cases congrArg Entry.kind (hpe.symm.trans hme)
    · have h := hsorted m p hm' hp' hlt
      unfold makeEntries at hpe hme
      rw [hpe, hme] at h
      simp only [less, Operation.callEntry, Operation.returnEntry] at h
      grind

lemma Sorts.mem_makeEntries : e ∈ makeEntries sort history ↔ ∃ (k : ℕ) (op : Operation I O),
    history[k]? = some op ∧ (e = op.callEntry k ∨ e = op.returnEntry k) := by
  unfold makeEntries
  rw [(hsort.perm _).mem_iff, mem_entriesFrom]
  simp only [zero_add]

lemma Sorts.length_makeEntries : (makeEntries sort history).length = 2 * history.length :=
  (hsort.perm _).length_eq.trans (length_entriesFrom 0 history)

/-- The entries are told apart by kind and id. -/
lemma Sorts.eq_call (hp : (makeEntries sort history)[p]? = some e) (hkind : e.kind = .callEntry) :
    ∃ op, history[e.id]? = some op ∧ e = op.callEntry e.id := by
  obtain ⟨k, op, hk, rfl | rfl⟩ := hsort.mem_makeEntries.1 (List.mem_of_getElem? hp)
  · exact ⟨op, hk, rfl⟩
  · cases hkind

lemma Sorts.eq_return (hp : (makeEntries sort history)[p]? = some e) (hkind : e.kind = .returnEntry) :
    ∃ op, history[e.id]? = some op ∧ e = op.returnEntry e.id := by
  obtain ⟨k, op, hk, rfl | rfl⟩ := hsort.mem_makeEntries.1 (List.mem_of_getElem? hp)
  · cases hkind
  · exact ⟨op, hk, rfl⟩

lemma Sorts.exists_call (hk : history[k]? = some op) :
    ∃ p : ℕ, (makeEntries sort history)[p]? = some (op.callEntry k) :=
  List.mem_iff_getElem?.1 (hsort.mem_makeEntries.2 ⟨k, op, hk, Or.inl rfl⟩)

lemma Sorts.exists_return (hk : history[k]? = some op) :
    ∃ m : ℕ, (makeEntries sort history)[m]? = some (op.returnEntry k) :=
  List.mem_iff_getElem?.1 (hsort.mem_makeEntries.2 ⟨k, op, hk, Or.inr rfl⟩)

lemma Sorts.wellFormed (htimes : ∀ op ∈ history, op.call ≤ op.returned) :
    WellFormed (makeEntries sort history) where
  id_lt := by
    intro e he
    rw [hsort.length_makeEntries, Nat.mul_div_cancel_left _ (by decide)]
    obtain ⟨k, op, hk, rfl | rfl⟩ := hsort.mem_makeEntries.1 he <;>
      exact (List.getElem?_eq_some_iff.1 hk).1
  input := by
    intro e he hkind
    obtain ⟨k, op, -, rfl | rfl⟩ := hsort.mem_makeEntries.1 he
    · exact ⟨op.input, rfl⟩
    · cases hkind
  output := by
    intro e he hkind
    obtain ⟨k, op, -, rfl | rfl⟩ := hsort.mem_makeEntries.1 he
    · cases hkind
    · exact ⟨op.output, rfl⟩
  returned := by
    intro p e hp hkind
    obtain ⟨op, hop, he⟩ := hsort.eq_call hp hkind
    obtain ⟨m, hm⟩ := hsort.exists_return hop
    rw [he] at hp
    refine ⟨m, _, (hsort.lt_iff hp hm).2 ?_, hm, rfl, rfl⟩
    exact not_lt.2 (htimes op (List.mem_of_getElem? hop))
  called := by
    intro m e hm hkind
    obtain ⟨op, hop, he⟩ := hsort.eq_return hm hkind
    obtain ⟨p, hp⟩ := hsort.exists_call hop
    exact ⟨p, _, hp, rfl, rfl⟩
  unique := by
    intro i j e e' hi hj hkind hid
    have heq : e = e' := by
      cases hk : e.kind with
      | callEntry =>
        obtain ⟨op, hop, he⟩ := hsort.eq_call hi hk
        obtain ⟨op', hop', he'⟩ := hsort.eq_call hj (hkind ▸ hk)
        rw [← hid] at hop' he'
        cases hop.symm.trans hop'
        exact he.trans he'.symm
      | returnEntry =>
        obtain ⟨op, hop, he⟩ := hsort.eq_return hi hk
        obtain ⟨op', hop', he'⟩ := hsort.eq_return hj (hkind ▸ hk)
        rw [← hid] at hop' he'
        cases hop.symm.trans hop'
        exact he.trans he'.symm
    have hnd : (makeEntries sort history).Nodup :=
      (hsort.perm _).nodup_iff.2 (nodup_entriesFrom 0 history)
    exact (List.getElem?_inj (List.getElem?_eq_some_iff.1 hi).1 hnd).1 (hi.trans (heq ▸ hj.symm))

end Entries

/-! ### Linearizations of operations -/

/-- The operations are allowed, one after the other. -/
def Legal (step : S → I → O → Bool × S) : S → List (Operation I O) → Prop
  | _, [] => True
  | state, op :: order => (step state op.input op.output).1 = true ∧
      Legal step (step state op.input op.output).2 order

/-- All operations of the history, in an order that is allowed; none comes before one that had returned
before it was called. -/
structure Explains (init : S) (step : S → I → O → Bool × S) (history order : List (Operation I O)) :
    Prop where
  perm : order.Perm history
  realTime : order.Pairwise fun a b => ¬ b.returned < a.call
  legal : Legal step init order

def Linearizable (init : S) (step : S → I → O → Bool × S) (history : List (Operation I O)) : Prop :=
  ∃ order, Explains init step history order

/-- A rearrangement of images comes from a rearrangement. -/
lemma exists_perm_map {α β : Type*} {f : α → β} {l : List β} {l' : List α} (h : l.Perm (l'.map f)) :
    ∃ l₁ : List α, l₁.Perm l' ∧ l₁.map f = l := by
  have h : Relation.Comp (· = List.map f ·) List.Perm l l' := by
    rw [List.eq_map_comp_perm]
    exact h
  obtain ⟨l₁, rfl, hperm⟩ := h
  exact ⟨l₁, hperm, rfl⟩

section Nodes

variable [Inhabited I] [Inhabited O]
variable {sort : List (Entry (I ⊕ O)) → List (Entry (I ⊕ O))} (hsort : Sorts sort)
variable {history : List (Operation I O)} (htimes : ∀ op ∈ history, op.call ≤ op.returned) {p q : ℕ}

/-- The nodes of the calls. -/
def callsOf (history : List (Entry (I ⊕ O))) : List ℕ :=
  (List.range history.length).filter fun p => (nodesOf history p).matching.isSome

variable (sort history) in
/-- The operation of a node. -/
def operationOf (p : ℕ) : Operation I O :=
  history.getD (nodesOf (makeEntries sort history) p).id default

include hsort htimes

lemma Sorts.operationOf_eq (hp : p ∈ callsOf (makeEntries sort history)) :
    ∃ k m : ℕ, (makeEntries sort history)[p]? = some ((operationOf sort history p).callEntry k) ∧
      (nodesOf (makeEntries sort history) p).matching = some m ∧
      (makeEntries sort history)[m]? = some ((operationOf sort history p).returnEntry k) := by
  have hw := hsort.wellFormed htimes
  obtain ⟨hlt, hcall⟩ := List.mem_filter.1 hp
  obtain ⟨e, hget⟩ : ∃ e, (makeEntries sort history)[p]? = some e :=
    ⟨_, List.getElem?_eq_getElem (List.mem_range.1 hlt)⟩
  have hkind : e.kind = .callEntry := by
    cases hkind : e.kind with
    | callEntry => rfl
    | returnEntry => simp [matching_eq_none hget hkind] at hcall
  obtain ⟨op, hop, he⟩ := hsort.eq_call hget hkind
  obtain ⟨m, e', hm, -, hgetm, hret, hid⟩ := hw.matching_eq_some hget hkind
  obtain ⟨op', hop', he'⟩ := hsort.eq_return hgetm hret
  rw [hid] at hop' he'
  cases hop.symm.trans hop'
  have hof : operationOf sort history p = op := by
    unfold operationOf
    rw [(nodesOf_eq hget).2, List.getD_eq_getElem?_getD, hop]
    rfl
  rw [hof]
  exact ⟨e.id, m, by rw [← he, hget], hm, by rw [← he', hgetm]⟩

/-- The calls are the operations. -/
lemma Sorts.perm_operations :
    ((callsOf (makeEntries sort history)).map (operationOf sort history)).Perm history := by
  have hw := hsort.wellFormed htimes
  have hids : ((callsOf (makeEntries sort history)).map
      fun p => (nodesOf (makeEntries sort history) p).id).Perm (List.range history.length) := by
    refine (List.perm_ext_iff_of_nodup ?_ List.nodup_range).2 fun k => ?_
    · refine List.Nodup.map_on (fun p hp q hq hid => ?_) (List.nodup_range.filter _)
      obtain ⟨hp, hcallp⟩ := List.mem_filter.1 hp
      obtain ⟨hq, hcallq⟩ := List.mem_filter.1 hq
      refine hw.paired.unique p (List.mem_range.1 hp) q (List.mem_range.1 hq) hid ?_
      simp_all [Option.isSome_iff_ne_none]
    · rw [List.mem_map, List.mem_range]
      constructor
      · rintro ⟨p, hp, rfl⟩
        have := hw.paired.id_lt p (List.mem_range.1 (List.mem_filter.1 hp).1)
        rwa [hsort.length_makeEntries, Nat.mul_div_cancel_left _ (by decide)] at this
      · intro hk
        obtain ⟨p, hp⟩ := hsort.exists_call (List.getElem?_eq_getElem hk)
        obtain ⟨m, -, hm, -⟩ := hw.matching_eq_some hp rfl
        refine ⟨p, List.mem_filter.2 ⟨?_, by simp [hm]⟩, (nodesOf_eq hp).2⟩
        exact List.mem_range.2 (List.getElem?_eq_some_iff.1 hp).1
  have hall : (List.range history.length).map (fun k => history.getD k default) = history := by
    refine List.ext_getElem (by simp) fun k _ hk => ?_
    simp [hk]
  have := hids.map fun k => history.getD k default
  rw [List.map_map, hall] at this
  exact this

lemma Sorts.realTime_iff (hp : p ∈ callsOf (makeEntries sort history))
    (hq : q ∈ callsOf (makeEntries sort history)) :
    (∀ m ∈ (nodesOf (makeEntries sort history) q).matching, p < m) ↔
      ¬ (operationOf sort history q).returned < (operationOf sort history p).call := by
  obtain ⟨k, -, hgetp, -, -⟩ := hsort.operationOf_eq htimes hp
  obtain ⟨k', m, -, hm, hgetm⟩ := hsort.operationOf_eq htimes hq
  rw [← hsort.lt_iff hgetp hgetm, hm]
  simp

lemma Sorts.legal_iff {order : List ℕ} (horder : ∀ p ∈ order, p ∈ callsOf (makeEntries sort history))
    (state : S) : LegalCalls model (nodesOf (makeEntries sort history)) state order ↔
      Legal model.step state (order.map (operationOf sort history)) := by
  induction order generalizing state with
  | nil => exact Iff.rfl
  | cons p order ih =>
    obtain ⟨k, m, hget, hm, hgetm⟩ := hsort.operationOf_eq htimes (horder p List.mem_cons_self)
    have ih := ih fun q hq => horder q (List.mem_cons_of_mem _ hq)
    have hstep : model.stepOn state (nodesOf (makeEntries sort history) p).value
        (nodesOf (makeEntries sort history) m).value =
        some (model.step state (operationOf sort history p).input
          (operationOf sort history p).output) := by
      rw [(nodesOf_eq hget).1, (nodesOf_eq hgetm).1]
      rfl
    constructor
    · rintro ⟨m', state', hm', hstep', hlegal⟩
      cases hm.symm.trans hm'
      have heq := Option.some_inj.1 (hstep.symm.trans hstep')
      refine ⟨congrArg Prod.fst heq, ?_⟩
      rw [heq]
      exact (ih _).1 hlegal
    · rintro ⟨hok, hlegal⟩
      exact ⟨m, _, hm, hstep.trans (congrArg some (Prod.ext hok rfl)), (ih _).2 hlegal⟩

/-- **Linearizations of the nodes are linearizations of the operations.** -/
lemma Sorts.linearizable_iff : Linearizable model.init model.step history ↔
    ∃ order, Linearizes model (nodesOf (makeEntries sort history)) model.init
      (List.range (makeEntries sort history).length) order := by
  have hops := hsort.perm_operations htimes
  constructor
  · rintro ⟨ops, ho⟩
    obtain ⟨order, hperm, rfl⟩ := exists_perm_map (ho.perm.trans hops.symm)
    refine ⟨order, hperm, ?_, (hsort.legal_iff htimes (fun p hp => hperm.subset hp) _).2 ho.legal⟩
    refine (List.pairwise_map.1 ho.realTime).imp_of_mem fun hp hq h => ?_
    exact (hsort.realTime_iff htimes (hperm.subset hp) (hperm.subset hq)).2 h
  · rintro ⟨order, ho⟩
    have hsub : ∀ p ∈ order, p ∈ callsOf (makeEntries sort history) := fun p hp => ho.perm.subset hp
    refine ⟨order.map (operationOf sort history), (ho.perm.map _).trans hops, ?_,
      (hsort.legal_iff htimes hsub _).1 ho.legal⟩
    refine List.pairwise_map.2 (ho.realTime.imp_of_mem fun hp hq h => ?_)
    exact (hsort.realTime_iff htimes (hsub _ hp) (hsub _ hq)).1 h

end Nodes

/-! ### Partitions -/

/-- `unknown` is the answer after a timeout, which `CheckOperations` does not set. -/
inductive CheckResult
  | unknown
  | ok
  | illegal
  deriving DecidableEq

/-- The loop of `checkParallel` takes the results as they come.  When one is missing it waits, and if
there is none to come that is for ever. -/
def collect (total : ℕ) (computeInfo : Bool) : ℕ → Bool → List Bool → Option Bool
  | _, _, [] => none
  | count, ok, result :: results =>
    let count := count + 1
    let ok := ok && result
    if !ok && !computeInfo then some ok
    else if count ≥ total then some ok
    else collect total computeInfo count ok results

section Parallel

variable [Inhabited I] [Inhabited O] (model)
variable (sort : List (Entry (I ⊕ O)) → List (Entry (I ⊕ O))) (arrive : List Bool → List Bool)

/-- The partitions are checked at the same time; their results come in some order. -/
def checkParallel (fuel : ℕ) (history : List (List (Entry (I ⊕ O)))) (computeInfo : Bool) :
    Option CheckResult := do
  let answers ← history.mapM fun subhistory => checkSingle model fuel subhistory computeInfo
  let ok ← collect history.length computeInfo 0 true (arrive (answers.map Prod.fst))
  some (if ok then .ok else .illegal)

def checkOperations (fuel : ℕ) (history : List (Operation I O)) (verbose : Bool) : Option CheckResult :=
  checkParallel model arrive fuel ((model.partition history).map (makeEntries sort)) verbose

end Parallel

/-- The loop ends with the conjunction of the results, if there are any. -/
lemma collect_eq {total count : ℕ} (computeInfo ok : Bool) {results : List Bool} (hne : results ≠ [])
    (hcount : count + results.length = total) :
    collect total computeInfo count ok results = some (ok && results.all id) := by
  induction results generalizing count ok with
  | nil => exact absurd rfl hne
  | cons result results ih =>
    unfold collect
    dsimp only
    split
    · rename_i hearly
      have : (ok && result) = false := by
        cases h : ok && result <;> simp_all
      simp only [List.all_cons, id, ← Bool.and_assoc, this, Bool.false_and]
    · rw [List.length_cons] at hcount
      split
      · have hnil : results = [] := List.eq_nil_of_length_eq_zero (by omega)
        simp [hnil]
      · have hne : results ≠ [] := by
          rintro rfl
          simp only [List.length_nil] at hcount
          omega
        rw [ih (ok && result) hne (by omega)]
        simp [Bool.and_assoc]

section Parallel

variable [Inhabited I] [Inhabited O]
variable {sort : List (Entry (I ⊕ O)) → List (Entry (I ⊕ O))} {arrive : List Bool → List Bool}

/-- All partitions are checked with the same fuel. -/
lemma Sorts.answers (hsort : Sorts sort) (hm : model.Congruent) (computePartial : Bool)
    {partitions : List (List (Operation I O))}
    (htimes : ∀ sub ∈ partitions, ∀ op ∈ sub, op.call ≤ op.returned) :
    ∃ enough, ∀ fuel ≥ enough, ∃ answers,
      (partitions.map (makeEntries sort)).mapM (checkSingle model fuel · computePartial) = some answers ∧
        answers.length = partitions.length ∧
        ((answers.map Prod.fst).all id = true ↔
          ∀ sub ∈ partitions, Linearizable model.init model.step sub) := by
  induction partitions with
  | nil => exact ⟨0, fun _ _ => ⟨[], rfl, rfl, by simp⟩⟩
  | cons sub partitions ih =>
    obtain ⟨enough, ih⟩ := ih fun sub hsub => htimes sub (List.mem_cons_of_mem _ hsub)
    have hsub := htimes sub List.mem_cons_self
    obtain ⟨enough', hsingle⟩ := (hsort.wellFormed hsub).checkSingle_eq hm computePartial
    refine ⟨max enough enough', fun fuel hfuel => ?_⟩
    obtain ⟨answers, hmap, hlength, hall⟩ := ih fuel (le_of_max_le_left hfuel)
    obtain ⟨answer, hanswer, hiff⟩ := hsingle fuel (le_of_max_le_right hfuel)
    rw [← hsort.linearizable_iff hsub] at hiff
    refine ⟨answer :: answers, ?_, by simp [hlength], ?_⟩
    · rw [List.map_cons, List.mapM_cons, hanswer, hmap]
      rfl
    · rw [List.map_cons, List.all_cons, Bool.and_eq_true, hall, List.forall_mem_cons]
      exact and_congr_left' hiff

/-- **The checker ends and is right**: it answers `Ok` if every partition is linearizable, and `Illegal`
otherwise. -/
theorem Sorts.checkOperations_eq (hsort : Sorts sort) (harrive : ∀ results, (arrive results).Perm results)
    (hm : model.Congruent) {history : List (Operation I O)} (hne : model.partition history ≠ [])
    (htimes : ∀ sub ∈ model.partition history, ∀ op ∈ sub, op.call ≤ op.returned) (verbose : Bool) :
    ∃ enough, ∀ fuel ≥ enough, ∃ result ∈ [CheckResult.ok, .illegal],
      checkOperations model sort arrive fuel history verbose = some result ∧
        (result = .ok ↔ ∀ sub ∈ model.partition history, Linearizable model.init model.step sub) := by
  obtain ⟨enough, hanswers⟩ := hsort.answers hm verbose htimes
  refine ⟨enough, fun fuel hfuel => ?_⟩
  obtain ⟨answers, hmap, hlength, hall⟩ := hanswers fuel hfuel
  have hperm := harrive (answers.map Prod.fst)
  have hcount : 0 + (arrive (answers.map Prod.fst)).length =
      ((model.partition history).map (makeEntries sort)).length := by
    rw [zero_add, hperm.length_eq, List.length_map, List.length_map, hlength]
  have hnonempty : arrive (answers.map Prod.fst) ≠ [] := by
    intro hnil
    rw [hnil, List.length_nil, List.length_map] at hcount
    exact hne (List.eq_nil_of_length_eq_zero (by omega))
  have hcollect := collect_eq verbose true hnonempty hcount
  rw [Bool.true_and, hperm.all_eq] at hcollect
  refine ⟨if (answers.map Prod.fst).all id then .ok else .illegal, by split <;> simp, ?_, ?_⟩
  · unfold checkOperations checkParallel
    rw [hmap]
    simp only [Option.bind_eq_bind, Option.bind_some, hcollect]
  · rw [← hall]
    split <;> simp_all

end Parallel

end RaftLabs.Porcupine
