import Mathlib.Tactic

/-!
# Doubly linked lists

Pointers from every cell to the next one and to the one before.  A cell that is unlinked keeps its own
two pointers, so that it can be linked again at its old place (`Linked.unlink`).
-/

namespace RaftLabs.Lib

/-- The two pointers of every cell; `none` is nil. -/
@[ext]
structure Links (P : Type*) where
  next : P → Option P
  prev : P → Option P

namespace Links

variable {P : Type*} [DecidableEq P] (h : Links P) {p a b : P} {l l₁ l₂ : List P}

def setNext (p : P) (q : Option P) : Links P := { h with next := Function.update h.next p q }

def setPrev (p : P) (q : Option P) : Links P := { h with prev := Function.update h.prev p q }

/-- The same for the cell behind a pointer, if it is not nil. -/
def setPrev? (p q : Option P) : Links P :=
  match p with
  | none => h
  | some p => h.setPrev p q

/-- The neighbours of a cell are linked to each other; there must be one before it. -/
def unlink (p : P) : Option (Links P) :=
  (h.prev p).map fun a => (h.setNext a (h.next p)).setPrev? (h.next p) (some a)

/-- A cell is linked to the neighbours that it still knows. -/
def relink (p : P) : Option (Links P) :=
  (h.prev p).map fun a => (h.setNext a (some p)).setPrev? (h.next p) (some p)

/-- The cells of the list are linked in this order, with nothing behind the last one. -/
def Linked : List P → Prop
  | [] => True
  | [a] => h.next a = none
  | a :: b :: l => h.next a = some b ∧ h.prev b = some a ∧ Linked (b :: l)

/-- The number of cells from a pointer on, up to `fuel`. -/
def length : ℕ → Option P → ℕ
  | 0, _ => 0
  | _, none => 0
  | fuel + 1, some p => length fuel (h.next p) + 1

variable {h}

omit [DecidableEq P] in
lemma Linked.length (hl : h.Linked l) {fuel : ℕ} (hfuel : l.length ≤ fuel) :
    h.length fuel l.head? = l.length := by
  induction l generalizing fuel with
  | nil => cases fuel <;> rfl
  | cons a l ih =>
    obtain ⟨fuel, rfl⟩ : ∃ k, fuel = k + 1 := ⟨fuel - 1, by simp at hfuel; omega⟩
    have hnext : h.next a = l.head? := by
      cases l with
      | nil => exact hl
      | cons b l => exact hl.1
    have hrest : h.Linked l := by
      cases l with
      | nil => trivial
      | cons b l => exact hl.2.2
    rw [List.head?_cons, Links.length, hnext, ih hrest (by simpa using hfuel), List.length_cons]

omit [DecidableEq P] in
/-- Only the pointers within the list matter. -/
lemma Linked.congr {h' : Links P} (hl : h.Linked l) (hnext : ∀ p ∈ l, h'.next p = h.next p)
    (hprev : ∀ p ∈ l.tail, h'.prev p = h.prev p) : h'.Linked l := by
  induction l with
  | nil => trivial
  | cons a l ih =>
    cases l with
    | nil => exact (hnext a List.mem_cons_self).trans hl
    | cons b l =>
      refine ⟨(hnext a List.mem_cons_self).trans hl.1, (hprev b List.mem_cons_self).trans hl.2.1, ?_⟩
      exact ih hl.2.2 (fun p hp => hnext p (List.mem_cons_of_mem _ hp))
        fun p hp => hprev p (List.mem_cons_of_mem _ hp)

omit [DecidableEq P] in
lemma Linked.right (l₁ : List P) (hl : h.Linked (l₁ ++ l₂)) : h.Linked l₂ := by
  induction l₁ with
  | nil => exact hl
  | cons a l₁ ih =>
    refine ih ?_
    cases hcat : l₁ ++ l₂ with
    | nil => trivial
    | cons b l =>
      rw [List.cons_append, hcat] at hl
      exact hl.2.2

omit [DecidableEq P] in
/-- The cell behind another one. -/
lemma Linked.next_eq (l₁ : List P) (hl : h.Linked (l₁ ++ a :: l₂)) : h.next a = l₂.head? := by
  have := hl.right l₁
  cases l₂ with
  | nil => exact this
  | cons b l₂ => exact this.1

omit [DecidableEq P] in
lemma Linked.prev_eq (l₁ : List P) (hl : h.Linked (l₁ ++ a :: b :: l₂)) : h.prev b = some a :=
  (hl.right l₁).2.1

omit [DecidableEq P] in
/-- What comes behind a cell is linked in another way. -/
lemma Linked.splice {h' : Links P} {l₃ : List P} (hl : h.Linked (l₁ ++ a :: l₂))
    (hnext : ∀ p ∈ l₁, h'.next p = h.next p) (hprev : ∀ p ∈ (l₁ ++ [a]).tail, h'.prev p = h.prev p)
    (hl' : h'.Linked (a :: l₃)) : h'.Linked (l₁ ++ a :: l₃) := by
  induction l₁ with
  | nil => exact hl'
  | cons c l₁ ih =>
    have ih := ih (hl.right [c]) (fun p hp => hnext p (List.mem_cons_of_mem _ hp))
      fun p hp => hprev p (List.mem_of_mem_tail hp)
    cases l₁ with
    | nil =>
      exact ⟨(hnext c List.mem_cons_self).trans hl.1, (hprev a (by simp)).trans hl.2.1, ih⟩
    | cons d l₁ =>
      exact ⟨(hnext c List.mem_cons_self).trans hl.1, (hprev d (by simp)).trans hl.2.1, ih⟩

lemma Linked.unlink_behind (hl : h.Linked (l₁ ++ a :: p :: l₂)) (hnd : (l₁ ++ a :: p :: l₂).Nodup) :
    ∃ h', h.unlink p = some h' ∧ h'.Linked (l₁ ++ a :: l₂) ∧ h'.relink p = some h ∧
      ∀ q ∉ l₁ ++ a :: l₂, h'.next q = h.next q := by
  have hprev := hl.prev_eq l₁
  have hnextA : h.next a = some p := hl.next_eq l₁
  have hnextP : h.next p = l₂.head? := Linked.next_eq (l₁ ++ [a]) (by simpa using hl)
  have hright : h.Linked (p :: l₂) := Linked.right (l₁ ++ [a]) (by simpa using hl)
  have hap : p ≠ a := by
    rintro rfl
    simp [List.nodup_append] at hnd
  have hbefore : ∀ q ∈ l₁, q ≠ a := by
    rintro q hq rfl
    exact (List.nodup_append.1 hnd).2.2 _ hq _ List.mem_cons_self rfl
  have hout : ∀ q ∉ l₁ ++ a :: l₂, q ≠ a := by
    rintro q hq rfl
    simp at hq
  unfold Links.unlink Links.relink
  rw [hprev, hnextP]
  refine ⟨_, rfl, ?_⟩
  cases l₂ with
  | nil =>
    refine ⟨?_, ?_, fun q hq => ?_⟩
    · exact hl.splice (fun q hq => Function.update_of_ne (hbefore q hq) _ _) (fun _ _ => rfl)
        (Function.update_self _ _ _)
    · simp only [List.head?_nil, setPrev?, setNext, hprev, Option.map_some, Function.update_of_ne hap,
        hnextP, Function.update_idem]
      congr 1
      ext1
      · exact hnextA ▸ Function.update_eq_self a h.next
      · rfl
    · exact Function.update_of_ne (hout q hq) _ _
  | cons b l₂ =>
    have hbp : p ≠ b := by
      rintro rfl
      simp [List.nodup_append] at hnd
    refine ⟨?_, ?_, fun q hq => ?_⟩
    · refine hl.splice (fun q hq => ?_) (fun q hq => ?_) ⟨?_, ?_, ?_⟩
      · exact Function.update_of_ne (hbefore q hq) _ _
      · have hne : q ≠ b := by
          rintro rfl
          have hq := List.mem_of_mem_tail hq
          simp only [List.nodup_append, List.nodup_cons, List.mem_cons, List.mem_append] at hnd hq
          grind
        exact Function.update_of_ne hne _ _
      · exact Function.update_self _ _ _
      · exact Function.update_self _ _ _
      · refine (hright.right [p]).congr (fun q hq => ?_) fun q hq => ?_
        · have hne : q ≠ a := by
            rintro rfl
            simp only [List.nodup_append, List.nodup_cons, List.mem_cons] at hnd hq
            grind
          exact Function.update_of_ne hne _ _
        · have hne : q ≠ b := by
            rintro rfl
            simp only [List.nodup_append, List.nodup_cons, List.tail_cons] at hnd hq
            grind
          exact Function.update_of_ne hne _ _
    · simp only [List.head?_cons, setPrev?, setNext, setPrev, Function.update_of_ne hbp, hprev,
        Option.map_some, Function.update_of_ne hap, hnextP, Function.update_idem]
      congr 1
      ext1
      · exact hnextA ▸ Function.update_eq_self a h.next
      · exact hright.2.1 ▸ Function.update_eq_self b h.prev
    · exact Function.update_of_ne (hout q hq) _ _

/-- **A cell is unlinked**, if it is not the first, and can be linked again at its place. -/
theorem Linked.unlink (l₁ : List P) (hl : h.Linked (l₁ ++ p :: l₂)) (hnd : (l₁ ++ p :: l₂).Nodup) (hne : l₁ ≠ []) :
    ∃ h', h.unlink p = some h' ∧ h'.Linked (l₁ ++ l₂) ∧ h'.relink p = some h ∧
      ∀ q ∉ l₁ ++ l₂, h'.next q = h.next q := by
  obtain ⟨l₁, a, rfl⟩ := (List.eq_nil_or_concat l₁).resolve_left hne
  rw [List.concat_eq_append, List.append_assoc, List.singleton_append] at hl hnd
  obtain ⟨h', hun, hl', hre, hframe⟩ := hl.unlink_behind hnd
  rw [List.concat_eq_append, List.append_assoc, List.singleton_append]
  exact ⟨h', hun, hl', hre, hframe⟩

end Links

end RaftLabs.Lib
