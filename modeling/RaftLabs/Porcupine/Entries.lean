import RaftLabs.Porcupine.InStep

/-!
# Histories as linked lists

`makeLinkedEntries` links the entries in the order of the history and gives every call its return.  On a
history in which every id has a call and, behind it, a return (`WellFormed`), `checkSingle` ends, does not
panic, and answers whether there is a linearization (`WellFormed.checkSingle_eq`).
-/

namespace RaftLabs.Porcupine

open Lib

variable {V : Type} [Inhabited V] {history : List (Entry V)} {e : Entry V}
variable {h : Links ℕ} {i j k p m : ℕ}

/-! ### Linking the entries -/

/-- A cell is put before the first one. -/
lemma linked_insertBefore {l : List ℕ} (hl : h.Linked l) (hnd : (k :: l).Nodup) (hnext : h.next k = none)
    (hprev : ∀ q ∈ l.head?, h.prev q = none) :
    (insertBefore h k l.head?).Linked (k :: l) ∧
      (∀ q ≠ k, (insertBefore h k l.head?).next q = h.next q) ∧
      ∀ q ∉ l, (insertBefore h k l.head?).prev q = h.prev q := by
  cases l with
  | nil => exact ⟨hnext, fun _ _ => rfl, fun _ _ => rfl⟩
  | cons a l =>
    obtain ⟨hk, hal⟩ := List.nodup_cons.1 hnd
    simp only [insertBefore, List.head?_cons, hprev a rfl]
    refine ⟨⟨Function.update_self .., Function.update_self .., hl.congr (fun q hq => ?_) fun q hq => ?_⟩,
      fun q hq => Function.update_of_ne hq .., fun q hq => ?_⟩
    · exact Function.update_of_ne (ne_of_mem_of_not_mem hq hk) ..
    · exact Function.update_of_ne (ne_of_mem_of_not_mem hq (List.nodup_cons.1 hal).1) ..
    · have hne : q ≠ a := fun heq => hq (heq ▸ List.mem_cons_self)
      exact Function.update_of_ne hne ..

/-- The links are those of a list, and there are no others. -/
structure Links.Only (h : Links ℕ) (l : List ℕ) : Prop where
  linked : h.Linked l
  next : ∀ q ∉ l, h.next q = none
  prev : ∀ q ∉ l.tail, h.prev q = none

lemma Links.Only.insertBefore {l : List ℕ} (ho : Links.Only h l) (hnd : (k :: l).Nodup) :
    Links.Only (insertBefore h k l.head?) (k :: l) := by
  obtain ⟨hk, hl⟩ := List.nodup_cons.1 hnd
  have hhead : ∀ q ∈ l.head?, h.prev q = none := by
    intro q hq
    refine ho.prev q ?_
    cases l with
    | nil => exact List.not_mem_nil
    | cons a l =>
      cases hq
      exact (List.nodup_cons.1 hl).1
  obtain ⟨hlinked, hnext, hprev⟩ := linked_insertBefore ho.linked hnd (ho.next k hk) hhead
  refine ⟨hlinked, fun q hq => ?_, fun q hq => ?_⟩
  · rw [hnext q fun heq => hq (heq ▸ List.mem_cons_self)]
    exact ho.next q fun hmem => hq (List.mem_cons_of_mem _ hmem)
  · rw [hprev q hq]
    exact ho.prev q fun hmem => hq (List.mem_of_mem_tail hmem)

lemma links_makeLinkedEntries (i : ℕ) (history : List (Entry V)) :
    Links.Only (makeLinkedEntries i history).links (List.range' i history.length) ∧
      (makeLinkedEntries i history).root = (List.range' i history.length).head? := by
  induction history generalizing i with
  | nil => exact ⟨⟨trivial, fun _ _ => rfl, fun _ _ => rfl⟩, rfl⟩
  | cons elem history ih =>
    obtain ⟨honly, hroot⟩ := ih (i + 1)
    have hnd : (i :: List.range' (i + 1) history.length).Nodup := by
      rw [← List.range'_succ]
      exact List.nodup_range'
    have := honly.insertBefore hnd
    rw [← hroot] at this
    rw [List.length_cons, List.range'_succ]
    unfold makeLinkedEntries
    cases elem.kind <;> exact ⟨this, rfl⟩

/-- What is behind a return in the map is its node. -/
lemma matchOf_eq_some (h : (makeLinkedEntries i history).matchOf k = some m) :
    ∃ j e, m = i + j ∧ history[j]? = some e ∧ e.kind = .returnEntry ∧ e.id = k := by
  induction history generalizing i with
  | nil => cases h
  | cons elem history ih =>
    unfold makeLinkedEntries at h
    cases hkind : elem.kind with
    | callEntry =>
      rw [hkind] at h
      obtain ⟨j, e, hm, hj, he⟩ := ih h
      exact ⟨j + 1, e, by omega, hj, he⟩
    | returnEntry =>
      rw [hkind] at h
      dsimp only at h
      by_cases hid : k = elem.id
      · rw [hid, Function.update_self] at h
        cases h
        exact ⟨0, elem, rfl, rfl, hkind, hid.symm⟩
      · rw [Function.update_of_ne hid] at h
        obtain ⟨j, e, hm, hj, he⟩ := ih h
        exact ⟨j + 1, e, by omega, hj, he⟩

lemma matchOf_ne_none (hj : history[j]? = some e) (hkind : e.kind = .returnEntry) :
    (makeLinkedEntries i history).matchOf e.id ≠ none := by
  induction history generalizing i j with
  | nil => cases hj
  | cons elem history ih =>
    unfold makeLinkedEntries
    cases j with
    | zero =>
      cases hj
      simp [hkind]
    | succ j =>
      have ih := ih (i := i + 1) hj
      cases elem.kind with
      | callEntry => exact ih
      | returnEntry =>
        dsimp only
        rw [Function.update_apply]
        split
        · simp
        · exact ih

lemma nodes_cons (i : ℕ) (elem : Entry V) (history : List (Entry V)) :
    (makeLinkedEntries i (elem :: history)).nodes =
      Function.update (makeLinkedEntries (i + 1) history).nodes i
        { value := elem.value
          matching := match elem.kind with
            | .returnEntry => none
            | .callEntry => (makeLinkedEntries (i + 1) history).matchOf elem.id
          id := elem.id } := by
  rw [makeLinkedEntries]
  cases elem.kind <;> rfl

/-- The node of an entry. -/
lemma nodes_makeLinkedEntries (hj : history[j]? = some e) :
    (makeLinkedEntries i history).nodes (i + j) =
      { value := e.value
        matching := match e.kind with
          | .returnEntry => none
          | .callEntry => (makeLinkedEntries (i + j + 1) (history.drop (j + 1))).matchOf e.id
        id := e.id } := by
  induction history generalizing i j with
  | nil => cases hj
  | cons elem history ih =>
    rw [nodes_cons]
    cases j with
    | zero =>
      cases hj
      exact Function.update_self ..
    | succ j =>
      have ih := ih (i := i + 1) hj
      rw [show i + 1 + j = i + (j + 1) by omega] at ih
      rw [Function.update_of_ne (by omega), ih]
      rfl

/-! ### Well-formed histories -/

section WellFormed

variable {S I O : Type} [Inhabited I] {model : Model S I O} {history : List (Entry (I ⊕ O))}
  {e : Entry (I ⊕ O)}

/-- Every id has one call and one return, the call first; calls have inputs and returns outputs. -/
structure WellFormed (history : List (Entry (I ⊕ O))) : Prop where
  id_lt : ∀ e ∈ history, e.id < history.length / 2
  input : ∀ e ∈ history, e.kind = .callEntry → ∃ input, e.value = .inl input
  output : ∀ e ∈ history, e.kind = .returnEntry → ∃ output, e.value = .inr output
  returned : ∀ {i : ℕ} {e : Entry (I ⊕ O)}, history[i]? = some e → e.kind = .callEntry →
    ∃ (j : ℕ) (e' : Entry (I ⊕ O)), i < j ∧ history[j]? = some e' ∧ e'.kind = .returnEntry ∧ e'.id = e.id
  called : ∀ {j : ℕ} {e : Entry (I ⊕ O)}, history[j]? = some e → e.kind = .returnEntry →
    ∃ (i : ℕ) (e' : Entry (I ⊕ O)), history[i]? = some e' ∧ e'.kind = .callEntry ∧ e'.id = e.id
  unique : ∀ {i j : ℕ} {e e' : Entry (I ⊕ O)}, history[i]? = some e → history[j]? = some e' →
    e.kind = e'.kind → e.id = e'.id → i = j

/-- The nodes of a history. -/
def nodesOf (history : List (Entry (I ⊕ O))) : ℕ → Node (I ⊕ O) := (makeLinkedEntries 0 history).nodes

lemma nodesOf_eq (hp : history[p]? = some e) : (nodesOf history p).value = e.value ∧
    (nodesOf history p).id = e.id := by
  have := nodes_makeLinkedEntries (i := 0) hp
  rw [zero_add] at this
  unfold nodesOf
  rw [this]
  exact ⟨rfl, rfl⟩

lemma matching_eq_none (hp : history[p]? = some e) (hkind : e.kind = .returnEntry) :
    (nodesOf history p).matching = none := by
  have := nodes_makeLinkedEntries (i := 0) hp
  rw [zero_add] at this
  unfold nodesOf
  rw [this, hkind]

/-- **A call knows its return.** -/
lemma WellFormed.matching_eq_some (hw : WellFormed history) (hp : history[p]? = some e)
    (hkind : e.kind = .callEntry) : ∃ (m : ℕ) (e' : Entry (I ⊕ O)),
      (nodesOf history p).matching = some m ∧ p < m ∧ history[m]? = some e' ∧
        e'.kind = .returnEntry ∧ e'.id = e.id := by
  have hnode := nodes_makeLinkedEntries (i := 0) hp
  rw [zero_add, hkind] at hnode
  obtain ⟨j, e', hlt, hj, hret, hid⟩ := hw.returned hp hkind
  obtain ⟨d, rfl⟩ : ∃ d, j = p + 1 + d := ⟨j - (p + 1), by omega⟩
  have hdrop : (history.drop (p + 1))[d]? = some e' := by rw [List.getElem?_drop, hj]
  obtain ⟨m, hm⟩ := Option.ne_none_iff_exists'.1 (matchOf_ne_none (i := p + 1) hdrop hret)
  obtain ⟨j', e'', rfl, hj', hret', hid'⟩ := matchOf_eq_some hm
  rw [List.getElem?_drop] at hj'
  refine ⟨p + 1 + j', e'', ?_, by omega, hj', hret', hid'.trans hid⟩
  unfold nodesOf
  rw [hnode]
  dsimp only
  rw [← hid, hm]

lemma WellFormed.matching_eq_none_iff (hw : WellFormed history) (hp : history[p]? = some e) :
    (nodesOf history p).matching = none ↔ e.kind = .returnEntry := by
  refine ⟨fun hnone => ?_, matching_eq_none hp⟩
  cases hkind : e.kind with
  | returnEntry => rfl
  | callEntry =>
    obtain ⟨m, -, hm, -⟩ := hw.matching_eq_some hp hkind
    cases hnone.symm.trans hm

lemma WellFormed.paired (hw : WellFormed history) :
    Paired (nodesOf history) history.length (history.length / 2) where
  id_lt := by
    intro p hp
    have hget := List.getElem?_eq_getElem hp
    rw [(nodesOf_eq hget).2]
    exact hw.id_lt _ (List.getElem_mem hp)
  ret := by
    intro p hp m hm
    have hget := List.getElem?_eq_getElem hp
    cases hkind : (history[p]).kind with
    | returnEntry => cases (matching_eq_none hget hkind).symm.trans hm
    | callEntry =>
      obtain ⟨m', e', hm', hlt, hget', hret, hid⟩ := hw.matching_eq_some hget hkind
      cases hm.symm.trans hm'
      refine ⟨hlt, (List.getElem?_eq_some_iff.1 hget').1, matching_eq_none hget' hret, ?_⟩
      rw [(nodesOf_eq hget).2, (nodesOf_eq hget').2, hid]
  call := by
    intro m hm hnone
    have hget := List.getElem?_eq_getElem hm
    have hret := (hw.matching_eq_none_iff hget).1 hnone
    obtain ⟨p, e', hp, hcall, hid⟩ := hw.called hget hret
    obtain ⟨m', e'', hm', -, hget', hret', hid'⟩ := hw.matching_eq_some hp hcall
    cases hw.unique hget hget' (hret.trans hret'.symm) (hid.symm.trans hid'.symm)
    exact ⟨p, (List.getElem?_eq_some_iff.1 hp).1, hm'⟩
  unique := by
    intro p hp q hq hid hmatch
    have hgetp := List.getElem?_eq_getElem hp
    have hgetq := List.getElem?_eq_getElem hq
    rw [(nodesOf_eq hgetp).2, (nodesOf_eq hgetq).2] at hid
    rw [hw.matching_eq_none_iff hgetp, hw.matching_eq_none_iff hgetq] at hmatch
    refine hw.unique hgetp hgetq ?_ hid
    cases hp' : (history[p]).kind <;> cases hq' : (history[q]).kind <;> simp_all
  typed := by
    intro p hp m hm
    have hget := List.getElem?_eq_getElem hp
    cases hkind : (history[p]).kind with
    | returnEntry => cases (matching_eq_none hget hkind).symm.trans hm
    | callEntry =>
      obtain ⟨m', e', hm', -, hget', hret, -⟩ := hw.matching_eq_some hget hkind
      cases hm.symm.trans hm'
      obtain ⟨input, hin⟩ := hw.input _ (List.getElem_mem hp) hkind
      obtain ⟨output, hout⟩ := hw.output e' (List.mem_of_getElem? hget') hret
      exact ⟨input, output, (nodesOf_eq hget).1.trans hin, (nodesOf_eq hget').1.trans hout⟩

/-- **The checker of one partition** ends, does not panic, and finds a linearization if there is one. -/
theorem WellFormed.checkSingle_eq (hw : WellFormed history) (hm : model.Congruent)
    (computePartial : Bool) : ∃ enough, ∀ fuel ≥ enough, ∃ answer,
      checkSingle model fuel history computePartial = some answer ∧
        (answer.1 = true ↔ ∃ order, Linearizes model (nodesOf history) model.init
          (List.range history.length) order) := by
  obtain ⟨honly, hroot⟩ := links_makeLinkedEntries 0 history
  rw [← List.range_eq_range'] at honly hroot
  have hnd : (history.length :: List.range history.length).Nodup :=
    List.nodup_cons.2 ⟨List.not_mem_range_self, List.nodup_range⟩
  have hlinks := (honly.insertBefore hnd).linked
  have hlength := honly.linked.length
    (show (List.range history.length).length ≤ history.length + 1 by simp)
  rw [← hroot] at hlinks hlength
  rw [List.length_range] at hlength
  have hall : remaining (nodesOf history) history.length ∅ = List.range history.length := by
    simp [remaining]
  rw [← hall] at hlinks hroot
  let root : Point S := ⟨∅, model.init⟩
  obtain ⟨enough, hloop⟩ := Search.loop_correct (layered hm) root
  refine ⟨enough, fun fuel hfuel => ?_⟩
  obtain ⟨found, hloop, hfound⟩ := hloop fuel hfuel
  rw [hw.paired.good_iff, show remaining _ _ root.linearized = _ from hall] at hfound
  have hstart : InStep model (nodesOf history) history.length (history.length / 2)
      { links := insertBefore (makeLinkedEntries 0 history).links history.length
          (makeLinkedEntries 0 history).root
        entry := (makeLinkedEntries 0 history).root
        state := model.init
        linearized := newBitset (history.length / 2)
        cache := fun _ => []
        calls := []
        longest := fun _ => none } (Search.start (graph model (nodesOf history) history.length) root) := by
    refine ⟨⟨hlinks, rfl, [], _, rfl, by simp, hroot, rfl⟩, Bitset.holds_newBitset _, ?_, trivial⟩
    exact ⟨fun _ _ he => absurd he List.not_mem_nil, fun _ hpt => absurd hpt List.not_mem_nil⟩
  obtain ⟨answer, hanswer, hsame⟩ := loop_sim
    (Q := fun (answer : Option Answer) found => answer.map Prod.fst = some found)
    (fun _ _ hi => hi.turn hw.paired computePartial) hstart hloop
  obtain ⟨answer, rfl, rfl⟩ := Option.map_eq_some_iff.1 hsame
  refine ⟨answer, ?_, hfound⟩
  unfold checkSingle
  dsimp only
  rw [hlength]
  exact congrArg Option.join hanswer

end WellFormed

end RaftLabs.Porcupine
