import Mathlib.Tactic

/-!
# Linearizability

A sequential object is a state with operations that change it and answer.  Clients call operations
of a system and get answers; the history of a run is the list of these calls and returns.  A history
is linearizable when the operations can be put into one order such that every answer is the one the
sequential object gives there, and that keeps apart operations of which one had returned before the
other was called.  Every operation carries its identity: no operation is called twice.

The rules say how an order grows along with a run: by a call, which changes nothing, by an operation
that takes effect, and by a return.  An operation that only reads and has not returned can be taken
back.
-/

namespace RaftLabs.Lib

/-- A sequential object: its first state, and what an operation does and answers. -/
structure Object (S O R : Type*) where
  init : S
  step : S → O → S × R

/-- What clients see: an operation is called, or returns with an answer. -/
inductive Action (O R : Type*)
  | call (op : O)
  | ret (op : O) (res : R)
  deriving DecidableEq

variable {S O R : Type*}

namespace Object

variable (X : Object S O R)

/-- The state after these operations. -/
def after (ops : List O) : S := ops.foldl (fun s op => (X.step s op).1) X.init

/-- The answer to an operation that comes after these. -/
def answer (ops : List O) (op : O) : R := (X.step (X.after ops) op).2

/-- The operation is in the order, and this is its answer there. -/
def Answered (order : List O) (op : O) (res : R) : Prop :=
  ∃ before rest, order = before ++ op :: rest ∧ res = X.answer before op

variable {X} {order : List O} {op : O} {res : R}

@[simp] lemma after_nil : X.after [] = X.init := rfl

@[simp] lemma after_concat (ops : List O) (op : O) :
    X.after (ops ++ [op]) = (X.step (X.after ops) op).1 := by
  simp [after]

lemma Answered.mem (h : X.Answered order op res) : op ∈ order := by
  obtain ⟨before, rest, rfl, -⟩ := h
  simp

/-- Later operations do not change an answer. -/
lemma Answered.append (h : X.Answered order op res) (more : List O) :
    X.Answered (order ++ more) op res := by
  obtain ⟨before, rest, rfl, hres⟩ := h
  exact ⟨before, rest ++ more, by simp, hres⟩

/-- The answer of the last operation. -/
lemma answered_concat (order : List O) (op : O) :
    X.Answered (order ++ [op]) op (X.answer order op) :=
  ⟨order, [], rfl, rfl⟩

/-- An operation that is in the order once has one answer. -/
lemma Answered.unique (hnd : order.Nodup) {res' : R} (h : X.Answered order op res)
    (h' : X.Answered order op res') : res = res' := by
  obtain ⟨b, r, he, rfl⟩ := h
  obtain ⟨b', r', he', rfl⟩ := h'
  rw [he] at he' hnd
  have hb : b = b' := by
    obtain ⟨-, hrest, hdisj⟩ := List.nodup_append.1 hnd
    rcases List.append_eq_append_iff.1 he' with ⟨m, hm, hr⟩ | ⟨m, hm, hr⟩
    · cases m with
      | nil => simpa using hm.symm
      | cons x m =>
        cases hr
        exact absurd (by simp) (List.nodup_cons.1 hrest).1
    · cases m with
      | nil => simpa using hm
      | cons x m =>
        cases hr
        exact absurd rfl (hdisj op (by rw [hm]; simp) op (by simp))
  rw [hb]

/-- The operation leaves the state alone. -/
def Reads (X : Object S O R) (op : O) : Prop := ∀ s, (X.step s op).1 = s

section Reads

variable {keep : O → Bool} (hr : ∀ op, keep op = false → X.Reads op)
include hr

lemma after_filter (ops : List O) : X.after (ops.filter keep) = X.after ops := by
  induction ops using List.reverseRecOn with
  | nil => rfl
  | append_singleton ops op ih =>
    rw [List.filter_append, after_concat]
    cases hk : keep op with
    | false => simpa [hk, hr op hk _] using ih
    | true => simpa [hk] using congrArg (fun s => (X.step s op).1) ih

/-- The other answers do not depend on operations that only read. -/
lemma Answered.filter (hk : keep op = true) (h : X.Answered order op res) :
    X.Answered (order.filter keep) op res := by
  obtain ⟨before, rest, rfl, rfl⟩ := h
  refine ⟨before.filter keep, rest.filter keep, ?_, ?_⟩
  · rw [List.filter_append, List.filter_cons_of_pos hk]
  · rw [answer, answer, after_filter hr]

end Reads

end Object

/-- The order is a witness that the history is linearizable. -/
structure Linearization (X : Object S O R) (history : List (Action O R)) (order : List O) :
    Prop where
  once : order.Nodup
  called : ∀ op ∈ order, Action.call op ∈ history
  answers : ∀ op res, Action.ret op res ∈ history → X.Answered order op res
  realTime : ∀ a res b, [Action.ret a res, Action.call b].Sublist history → b ∈ order →
    [a, b].Sublist order

/-- Two elements one after the other in a list that has grown by one. -/
lemma pair_sublist_concat {α : Type*} {a b c : α} {l : List α}
    (h : [a, b].Sublist (l ++ [c])) : [a, b].Sublist l ∨ a ∈ l ∧ b = c := by
  obtain ⟨l₁, l₂, he, h₁, h₂⟩ := List.sublist_append_iff.1 h
  match l₁, he with
  | [], he =>
    have hlen := h₂.length_le
    rw [show l₂ = [a, b] from he.symm] at hlen
    simp at hlen
  | [x], he =>
    obtain ⟨rfl, rfl⟩ : a = x ∧ [b] = l₂ := by simpa using he
    exact Or.inr ⟨h₁.subset (by simp), by simpa using h₂.subset (List.mem_singleton_self b)⟩
  | [x, y], he =>
    obtain ⟨rfl, rfl, -⟩ : a = x ∧ b = y ∧ l₂ = [] := by simpa using he
    exact Or.inl h₁
  | x :: y :: z :: l₁, he => simp at he

namespace Linearization

variable {X : Object S O R} {history : List (Action O R)} {order : List O} {op : O} {res : R}

lemma nil : Linearization X [] [] :=
  ⟨List.nodup_nil, fun _ h => absurd h List.not_mem_nil, fun _ _ h => absurd h List.not_mem_nil,
    fun _ _ _ h => absurd (h.subset List.mem_cons_self) List.not_mem_nil⟩

/-- **A call.**  An operation that is called now has not taken effect. -/
theorem call (h : Linearization X history order) (hnew : op ∉ order) :
    Linearization X (history ++ [.call op]) order where
  once := h.once
  called o ho := List.mem_append_left _ (h.called o ho)
  answers o r ho := by
    rcases List.mem_append.1 ho with ho | ho
    · exact h.answers o r ho
    · simp at ho
  realTime a r b hab hb := by
    rcases pair_sublist_concat hab with hab | ⟨-, heq⟩
    · exact h.realTime a r b hab hb
    · cases heq
      exact absurd hb hnew

/-- **An operation takes effect.**  Whatever has returned is in the order already. -/
theorem perform (h : Linearization X history order) (hcall : Action.call op ∈ history)
    (hnew : op ∉ order) : Linearization X history (order ++ [op]) where
  once := by
    rw [List.nodup_append]
    refine ⟨h.once, List.nodup_singleton op, fun a ha b hb => ?_⟩
    rintro rfl
    exact hnew (List.mem_singleton.1 hb ▸ ha)
  called o ho := by
    rcases List.mem_append.1 ho with ho | ho
    · exact h.called o ho
    · rw [List.mem_singleton.1 ho]
      exact hcall
  answers o r ho := (h.answers o r ho).append [op]
  realTime a r b hab hb := by
    rcases List.mem_append.1 hb with hb | hb
    · exact (h.realTime a r b hab hb).trans (List.sublist_append_left _ _)
    · rw [List.mem_singleton.1 hb]
      have ha : a ∈ order := (h.answers a r (hab.subset List.mem_cons_self)).mem
      exact (List.singleton_sublist.2 ha).append (List.Sublist.refl [op])

/-- **A return**, with the answer that the order gives. -/
theorem ret (h : Linearization X history order) (hres : X.Answered order op res) :
    Linearization X (history ++ [.ret op res]) order where
  once := h.once
  called o ho := List.mem_append_left _ (h.called o ho)
  answers o r ho := by
    rcases List.mem_append.1 ho with ho | ho
    · exact h.answers o r ho
    · obtain ⟨rfl, rfl⟩ : o = op ∧ r = res := by simpa using ho
      exact hres
  realTime a r b hab hb := by
    rcases pair_sublist_concat hab with hab | ⟨-, heq⟩
    · exact h.realTime a r b hab hb
    · cases heq

/-- **A reading operation is taken back** before it has returned. -/
theorem forget [DecidableEq O] (h : Linearization X history order) (hr : X.Reads op)
    (hopen : ∀ res, Action.ret op res ∉ history) :
    Linearization X history (order.filter (· ≠ op)) where
  once := h.once.filter _
  called o ho := h.called o (List.mem_filter.1 ho).1
  answers o r ho := by
    refine (h.answers o r ho).filter (fun o ho => ?_) (decide_eq_true ?_)
    · rw [not_not.1 (of_decide_eq_false ho)]
      exact hr
    · rintro rfl
      exact hopen r ho
  realTime a r b hab hb := by
    have ha : a ≠ op := by
      rintro rfl
      exact hopen r (hab.subset List.mem_cons_self)
    obtain ⟨hb, hne⟩ := List.mem_filter.1 hb
    have hsub := (h.realTime a r b hab hb).filter (· ≠ op)
    rwa [List.filter_eq_self.2 (by simpa using ⟨ha, of_decide_eq_true hne⟩)] at hsub

end Linearization

end RaftLabs.Lib
