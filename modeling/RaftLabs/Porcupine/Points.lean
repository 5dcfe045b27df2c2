import RaftLabs.Porcupine.Checker

/-!
# What the checker searches

The points of the search are the sets of calls that have been taken, with the state of the model.  A call
can be taken next if no return stands before it.  A linearization is an order of the calls in which none
comes before another one that had returned before it began, and that the model allows; there is a way from
a point to the end exactly if there is a linearization of the calls that are left (`good_iff`).
-/

namespace RaftLabs.Porcupine

open Lib

variable {S I O : Type} (model : Model S I O) (nodes : ℕ → Node (I ⊕ O)) (len : ℕ)

/-- Every call stands before its return, and there is one of each for an id. -/
structure Paired (n : ℕ) : Prop where
  id_lt : ∀ p < len, (nodes p).id < n
  ret : ∀ p < len, ∀ m, (nodes p).matching = some m →
    p < m ∧ m < len ∧ (nodes m).matching = none ∧ (nodes m).id = (nodes p).id
  call : ∀ m < len, (nodes m).matching = none → ∃ p < len, (nodes p).matching = some m
  unique : ∀ p < len, ∀ q < len, (nodes p).id = (nodes q).id →
    ((nodes p).matching = none ↔ (nodes q).matching = none) → p = q
  typed : ∀ p < len, ∀ m, (nodes p).matching = some m →
    ∃ input output, (nodes p).value = .inl input ∧ (nodes m).value = .inr output

/-- Equal states allow the same. -/
structure Model.Congruent (model : Model S I O) : Prop where
  ok : ∀ {s t}, model.equal s t → ∀ v w, (model.step s v w).1 = (model.step t v w).1
  step : ∀ {s t}, model.equal s t → ∀ v w, model.equal (model.step s v w).2 (model.step t v w).2

@[ext]
structure Point (S : Type) where
  linearized : Finset ℕ
  state : S

/-- The nodes of the calls that have not been taken, and of their returns. -/
def remaining (linearized : Finset ℕ) : List ℕ :=
  (List.range len).filter fun p => (nodes p).id ∉ linearized

/-- A call is taken, if the model allows it. -/
def child (pt : Point S) (p m : ℕ) : Option (Point S) :=
  match model.stepOn pt.state (nodes p).value (nodes m).value with
  | some (true, state) => some ⟨insert (nodes p).id pt.linearized, state⟩
  | _ => none

/-- The calls before the first return. -/
def alternatives (pt : Point S) : List ℕ → List (Option (Point S))
  | [] => []
  | p :: rest =>
    match (nodes p).matching with
    | none => []
    | some m => child model nodes pt p m :: alternatives pt rest

def graph : Graph (Point S) where
  next pt := alternatives model nodes pt (remaining nodes len pt.linearized)
  goal pt := (remaining nodes len pt.linearized).isEmpty
  same a b := decide (a.linearized = b.linearized) && model.equal a.state b.state

/-- The model allows the calls, one after the other. -/
def LegalCalls : S → List ℕ → Prop
  | _, [] => True
  | state, p :: order => ∃ m state', (nodes p).matching = some m ∧
      model.stepOn state (nodes p).value (nodes m).value = some (true, state') ∧ LegalCalls state' order

/-- A linearization of some of the nodes, by their calls. -/
structure Linearizes (state : S) (rest order : List ℕ) : Prop where
  perm : order.Perm (rest.filter fun p => (nodes p).matching.isSome)
  realTime : order.Pairwise fun p q => ∀ m ∈ (nodes q).matching, p < m
  legal : LegalCalls model nodes state order

variable {model nodes len} {n : ℕ} {pt pt' : Point S} {p m : ℕ} {linearized : Finset ℕ} {state : S}

lemma mem_remaining : p ∈ remaining nodes len linearized ↔ p < len ∧ (nodes p).id ∉ linearized := by
  simp [remaining]

lemma remaining_insert (id : ℕ) : remaining nodes len (insert id linearized) =
    (remaining nodes len linearized).filter fun p => (nodes p).id ≠ id := by
  unfold remaining
  rw [List.filter_filter]
  refine List.filter_congr fun p _ => ?_
  simp only [Finset.mem_insert, not_or, Bool.decide_and]

variable (nodes len linearized) in
lemma pairwise_remaining : (remaining nodes len linearized).Pairwise (· < ·) :=
  List.pairwise_lt_range.filter _

lemma nodup_remaining : (remaining nodes len linearized).Nodup :=
  List.nodup_range.filter _

lemma child_eq_some : child model nodes pt p m = some pt' ↔
    model.stepOn pt.state (nodes p).value (nodes m).value = some (true, pt'.state) ∧
      pt'.linearized = insert (nodes p).id pt.linearized := by
  unfold child
  split
  · rename_i state hstep
    constructor
    · rintro ⟨⟩
      exact ⟨hstep, rfl⟩
    · rintro ⟨h, hlin⟩
      cases hstep.symm.trans h
      rw [← hlin]
  · rename_i hstep
    exact ⟨nofun, fun h => absurd h.1 (hstep _)⟩

/-- Equal states go on to equal states. -/
lemma Model.Congruent.stepOn (hm : model.Congruent) {s t s' : S} {v w : I ⊕ O}
    (hequal : model.equal s t ∨ model.equal t s) (hs : model.stepOn s v w = some (true, s')) :
    ∃ t', model.stepOn t v w = some (true, t') ∧ (model.equal s' t' ∨ model.equal t' s') := by
  cases v with
  | inr output => cases hs
  | inl input =>
    cases w with
    | inl input' => cases hs
    | inr output =>
      have hstep : model.step s input output = (true, s') := Option.some_inj.1 hs
      have hok : (model.step t input output).1 = true := by
        rcases hequal with h | h
        · rw [← hm.ok h, hstep]
        · rw [hm.ok h, hstep]
      refine ⟨(model.step t input output).2, congrArg some (Prod.ext hok rfl), ?_⟩
      have hnext := hequal.imp (hm.step · input output) (hm.step · input output)
      rwa [hstep] at hnext

/-- **The alternatives** are the calls with no return before them. -/
lemma mem_alternatives {l : List ℕ} : some pt' ∈ alternatives model nodes pt l ↔
    ∃ l₁ p m l₂, l = l₁ ++ p :: l₂ ∧ (∀ q ∈ l₁, (nodes q).matching ≠ none) ∧
      (nodes p).matching = some m ∧ child model nodes pt p m = some pt' := by
  induction l with
  | nil => simp [alternatives]
  | cons q l ih =>
    unfold alternatives
    cases hq : (nodes q).matching with
    | none =>
      refine ⟨fun h => absurd h List.not_mem_nil, ?_⟩
      rintro ⟨l₁, p, m, l₂, hl, hcalls, hp, -⟩
      cases l₁ with
      | nil =>
        cases hl
        cases hq.symm.trans hp
      | cons c l₁ =>
        cases hl
        exact absurd hq (hcalls _ List.mem_cons_self)
    | some m =>
      dsimp only
      rw [List.mem_cons, ih]
      constructor
      · rintro (h | ⟨l₁, p, m', l₂, rfl, hcalls, hp, hchild⟩)
        · exact ⟨[], q, m, l, rfl, by simp, hq, h.symm⟩
        · refine ⟨q :: l₁, p, m', l₂, rfl, ?_, hp, hchild⟩
          intro c hc
          rcases List.mem_cons.1 hc with rfl | hc
          · simp [hq]
          · exact hcalls c hc
      · rintro ⟨l₁, p, m', l₂, hl, hcalls, hp, hchild⟩
        cases l₁ with
        | nil =>
          cases hl
          cases hq.symm.trans hp
          exact Or.inl hchild.symm
        | cons c l₁ =>
          cases hl
          exact Or.inr ⟨l₁, p, m', l₂, rfl, fun c hc => hcalls c (List.mem_cons_of_mem _ hc), hp, hchild⟩

lemma good_of_equal (hm : model.Congruent) (hgood : (graph model nodes len).Good pt)
    (hlin : pt.linearized = pt'.linearized)
    (hequal : model.equal pt.state pt'.state ∨ model.equal pt'.state pt.state) :
    (graph model nodes len).Good pt' := by
  induction hgood generalizing pt' with
  | goal h => exact .goal (by simpa [graph, hlin] using h)
  | @next a b h _ ih =>
    obtain ⟨l₁, p, m, l₂, hl, hcalls, hp, hchild⟩ := mem_alternatives.1 h
    obtain ⟨hstep, hblin⟩ := child_eq_some.1 hchild
    obtain ⟨state, hstep', hequal'⟩ := hm.stepOn hequal hstep
    let b' : Point S := ⟨insert (nodes p).id pt'.linearized, state⟩
    refine .next (b := b') (mem_alternatives.2 ⟨l₁, p, m, l₂, hlin ▸ hl, hcalls, hp,
      child_eq_some.2 ⟨hstep', rfl⟩⟩) (ih ?_ hequal')
    rw [hblin, hlin]

/-- **The cache is right** to take points for each other. -/
theorem layered (hm : model.Congruent) :
    (graph model nodes len).Layered fun pt => (remaining nodes len pt.linearized).length where
  down := by
    intro a b h
    obtain ⟨l₁, p, m, l₂, hl, -, -, hchild⟩ := mem_alternatives.1 h
    rw [(child_eq_some.1 hchild).2, remaining_insert]
    refine List.length_filter_lt_length_iff_exists.2 ⟨p, ?_, by simp⟩
    rw [hl]
    simp
  level := by
    intro a b h
    simp only [graph, Bool.and_eq_true, decide_eq_true_eq] at h
    simp only [h.1]
  good := by
    intro a b h
    simp only [graph, Bool.and_eq_true, decide_eq_true_eq] at h
    exact ⟨fun hgood => good_of_equal hm hgood h.1 (Or.inl h.2),
      fun hgood => good_of_equal hm hgood h.1.symm (Or.inr h.2)⟩

section Paired

variable (hn : Paired nodes len n)
include hn

/-- A call that is left has its return left. -/
lemma Paired.ret_mem (hp : p ∈ remaining nodes len linearized) (hm : (nodes p).matching = some m) :
    p < m ∧ m ∈ remaining nodes len linearized ∧ (nodes m).matching = none := by
  obtain ⟨hlt, hid⟩ := mem_remaining.1 hp
  obtain ⟨hpm, hmlt, hnone, hidm⟩ := hn.ret p hlt m hm
  exact ⟨hpm, mem_remaining.2 ⟨hmlt, hidm ▸ hid⟩, hnone⟩

lemma Paired.call_mem (hm : m ∈ remaining nodes len linearized) (hnone : (nodes m).matching = none) :
    ∃ p ∈ remaining nodes len linearized, (nodes p).matching = some m := by
  obtain ⟨hlt, hid⟩ := mem_remaining.1 hm
  obtain ⟨p, hp, hmatch⟩ := hn.call m hlt hnone
  exact ⟨p, mem_remaining.2 ⟨hp, (hn.ret p hp m hmatch).2.2.2 ▸ hid⟩, hmatch⟩

/-- Only a call and its return have its id. -/
lemma Paired.eq_or_eq {q : ℕ} (hp : p < len) (hm : (nodes p).matching = some m) (hq : q < len)
    (hid : (nodes q).id = (nodes p).id) : q = p ∨ q = m := by
  obtain ⟨-, hmlt, hnone, hidm⟩ := hn.ret p hp m hm
  cases hmq : (nodes q).matching with
  | none => exact Or.inr (hn.unique q hq m hmlt (hid.trans hidm.symm) (by simp [hmq, hnone]))
  | some m' => exact Or.inl (hn.unique q hq p hp hid (by simp [hmq, hm]))

/-- The calls that are left when one has been taken. -/
lemma Paired.calls_insert (hp : p ∈ remaining nodes len linearized) (hm : (nodes p).matching = some m) :
    ((remaining nodes len linearized).filter fun q => (nodes q).matching.isSome).Perm
      (p :: (remaining nodes len (insert (nodes p).id linearized)).filter
        fun q => (nodes q).matching.isSome) := by
  refine (List.perm_ext_iff_of_nodup (nodup_remaining.filter _) ?_).2 fun q => ?_
  · refine List.nodup_cons.2 ⟨?_, nodup_remaining.filter _⟩
    simp [mem_remaining]
  · have hlt := (mem_remaining.1 hp).1
    simp only [List.mem_filter, List.mem_cons, mem_remaining, Finset.mem_insert, not_or]
    constructor
    · rintro ⟨⟨hq, hid⟩, hcall⟩
      by_cases hqp : q = p
      · exact Or.inl hqp
      · refine Or.inr ⟨⟨hq, fun heq => ?_, hid⟩, hcall⟩
        rcases hn.eq_or_eq hlt hm hq heq with rfl | rfl
        · exact hqp rfl
        · simp [(hn.ret p hlt q hm).2.2.1] at hcall
    · rintro (rfl | ⟨⟨hq, -, hid⟩, hcall⟩)
      · exact ⟨mem_remaining.1 hp, by simp [hm]⟩
      · exact ⟨⟨hq, hid⟩, hcall⟩

lemma Paired.linearizes_of_good (hgood : (graph model nodes len).Good pt) :
    ∃ order, Linearizes model nodes pt.state (remaining nodes len pt.linearized) order := by
  induction hgood with
  | @goal a h =>
    have hnil : remaining nodes len a.linearized = [] := by simpa [graph] using h
    exact ⟨[], by simp [hnil], List.Pairwise.nil, trivial⟩
  | @next a b h _ ih =>
    obtain ⟨l₁, p, m, l₂, hl, hcalls, hp, hchild⟩ := mem_alternatives.1 h
    obtain ⟨hstep, hlin⟩ := child_eq_some.1 hchild
    obtain ⟨order, ho⟩ := ih
    rw [hlin] at ho
    have hmem : p ∈ remaining nodes len a.linearized := by simp [hl]
    refine ⟨p :: order, (ho.perm.cons p).trans (hn.calls_insert hmem hp).symm, ?_, m, _, hp, hstep,
      ho.legal⟩
    refine List.pairwise_cons.2 ⟨fun q hq m' hm' => ?_, ho.realTime⟩
    -- the return is left, and the returns that are left stand behind `p`
    have hq' := (List.mem_filter.1 (ho.perm.subset hq)).1
    rw [remaining_insert] at hq'
    obtain ⟨-, hret, hnone⟩ := hn.ret_mem (List.mem_filter.1 hq').1 hm'
    have hsorted := pairwise_remaining nodes len a.linearized
    rw [hl] at hret hsorted
    rcases List.mem_append.1 hret with h₁ | h₂
    · exact absurd hnone (hcalls m' h₁)
    · rcases List.mem_cons.1 h₂ with rfl | h₂
      · cases hnone.symm.trans hp
      · exact List.rel_of_pairwise_cons (List.pairwise_append.1 hsorted).2.1 h₂

lemma Paired.good_of_linearizes {order : List ℕ}
    (ho : Linearizes model nodes state (remaining nodes len linearized) order) :
    (graph model nodes len).Good ⟨linearized, state⟩ := by
  induction order generalizing linearized state with
  | nil =>
    refine .goal ?_
    -- a return that is left would have its call left
    have hcalls := List.nil_perm.1 ho.perm
    simp only [graph, List.isEmpty_iff, List.eq_nil_iff_forall_not_mem]
    intro q hq
    have hnone : ∀ r ∈ remaining nodes len linearized, (nodes r).matching = none := by
      simpa [List.filter_eq_nil_iff] using hcalls
    obtain ⟨p, hp, hm⟩ := hn.call_mem hq (hnone q hq)
    cases (hnone p hp).symm.trans hm
  | cons p order ih =>
    obtain ⟨m, state', hm, hstep, hlegal⟩ := ho.legal
    have hp : p ∈ remaining nodes len linearized :=
      (List.mem_filter.1 (ho.perm.subset List.mem_cons_self)).1
    obtain ⟨l₁, l₂, hl⟩ := List.append_of_mem hp
    have hsorted := pairwise_remaining nodes len linearized
    rw [hl] at hsorted
    have hcalls : ∀ q ∈ l₁, (nodes q).matching ≠ none := by
      intro q hq hnone
      have hqp : q < p := (List.pairwise_append.1 hsorted).2.2 q hq p List.mem_cons_self
      have hq' : q ∈ remaining nodes len linearized := by simp [hl, hq]
      obtain ⟨c, hc, hmc⟩ := hn.call_mem hq' hnone
      have hmem : c ∈ p :: order := ho.perm.symm.subset (List.mem_filter.2 ⟨hc, by simp [hmc]⟩)
      rcases List.mem_cons.1 hmem with rfl | hmem
      · have := (hn.ret_mem hc hmc).1
        omega
      · have := (List.pairwise_cons.1 ho.realTime).1 c hmem q hmc
        omega
    refine .next (b := ⟨insert (nodes p).id linearized, state'⟩)
      (mem_alternatives.2 ⟨l₁, p, m, l₂, hl, hcalls, hm, child_eq_some.2 ⟨hstep, rfl⟩⟩)
      (ih ⟨?_, ?_, hlegal⟩)
    · exact (List.perm_cons p).1 (ho.perm.trans (hn.calls_insert hp hm))
    · exact (List.pairwise_cons.1 ho.realTime).2

/-- **The search looks for a linearization.** -/
theorem Paired.good_iff : (graph model nodes len).Good pt ↔
    ∃ order, Linearizes model nodes pt.state (remaining nodes len pt.linearized) order :=
  ⟨hn.linearizes_of_good, fun ⟨_, ho⟩ => hn.good_of_linearizes ho⟩

end Paired

end RaftLabs.Porcupine
