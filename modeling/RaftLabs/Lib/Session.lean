import RaftLabs.Lib.Linearizable

/-!
# Client sessions

Clients number their calls and have one call open at a time (`Clients`).  Behind them an object is
driven by a log in which an operation may stand any number of times: an operation is executed only if
its number is above the last one of its client, and the last answer to every client is kept
(`Session`).

Then the operations of the log that were executed (`effects`) are an order of which the state and the
kept answers are those of the object, and the order grows along with the log (`Linearization.log`).
-/

set_option linter.unusedSectionVars false

namespace RaftLabs.Lib

variable {S O R : Type*}

/-- Which client an operation belongs to, and the number of its call. -/
structure Numbering (O : Type*) where
  client : O → ℕ
  number : O → ℕ

/-! ### The clients -/

/-- The number of the next call of every client, its open call, and what was called and returned. -/
structure Clients (O R : Type*) where
  next : ℕ → ℕ
  calling : ℕ → Option O
  history : List (Action O R)

namespace Clients

variable (N : Numbering O) [DecidableEq O] (ck : Clients O R)

def init : Clients O R := ⟨fun _ => 0, fun _ => none, []⟩

/-- A client calls an operation, which has its next number. -/
def call (op : O) : Option (Clients O R) :=
  if ck.calling (N.client op) = none ∧ N.number op = ck.next (N.client op) then
    some
      { next := Function.update ck.next (N.client op) (ck.next (N.client op) + 1)
        calling := Function.update ck.calling (N.client op) (some op)
        history := ck.history ++ [.call op] }
  else none

/-- An open call returns. -/
def ret (op : O) (res : R) : Option (Clients O R) :=
  if ck.calling (N.client op) = some op then
    some
      { ck with
        calling := Function.update ck.calling (N.client op) none
        history := ck.history ++ [.ret op res] }
  else none

/-- The operation has been called. -/
def Issued (op : O) : Prop := Action.call op ∈ ck.history

/-- Every call has a number of its own. -/
structure Numbered : Prop where
  below : ∀ op, ck.Issued op → N.number op < ck.next (N.client op)
  unique : ∀ op op', ck.Issued op → ck.Issued op' → N.client op = N.client op' →
    N.number op = N.number op' → op = op'

variable {N} {ck} {ck' : Clients O R} {op op' : O} {res : R}

lemma call_history (h : ck.call N op = some ck') : ck'.history = ck.history ++ [.call op] := by
  unfold call at h
  split at h <;> cases h
  rfl

lemma ret_history (h : ck.ret N op res = some ck') : ck'.history = ck.history ++ [.ret op res] := by
  unfold ret at h
  split at h <;> cases h
  rfl

/-- The call is open then. -/
lemma calling_call (h : ck.call N op = some ck') : ck'.calling (N.client op) = some op := by
  unfold call at h
  split at h <;> cases h
  exact Function.update_self ..

lemma issued_call (h : ck.call N op = some ck') : ck'.Issued op' ↔ ck.Issued op' ∨ op' = op := by
  unfold Issued
  rw [call_history h]
  simp

lemma issued_ret (h : ck.ret N op res = some ck') : ck'.Issued op' ↔ ck.Issued op' := by
  unfold Issued
  rw [ret_history h]
  simp

lemma numbered_init : (init : Clients O R).Numbered N :=
  ⟨fun _ h => absurd h List.not_mem_nil, fun _ _ h => absurd h List.not_mem_nil⟩

/-- An operation that is called now has not been called before. -/
lemma Numbered.fresh (hn : ck.Numbered N) (h : ck.call N op = some ck') : ¬ ck.Issued op := by
  unfold call at h
  split at h
  · rename_i hnext
    exact fun hi => absurd (hn.below op hi) (by omega)
  · cases h

lemma Numbered.call (hn : ck.Numbered N) (h : ck.call N op = some ck') : ck'.Numbered N := by
  have hissued : ∀ o, ck'.Issued o ↔ ck.Issued o ∨ o = op := fun o => issued_call h
  unfold Clients.call at h
  split at h
  · rename_i hnext
    cases h
    -- the number of the new call is above those of the old ones of its client
    have hold : ∀ o, ck.Issued o → N.client o = N.client op → N.number o = N.number op → False := by
      intro o ho hc hk
      have := hn.below o ho
      rw [hc] at this
      omega
    constructor
    · intro o ho
      dsimp only
      rcases (hissued o).1 ho with ho | rfl
      · have hlt := hn.below o ho
        by_cases hc : N.client o = N.client op
        · rw [hc, Function.update_self]
          rw [hc] at hlt
          omega
        · rw [Function.update_of_ne hc]
          exact hlt
      · rw [Function.update_self]
        omega
    · intro o o' ho ho' hc hk
      rcases (hissued o).1 ho with h₁ | h₁ <;> rcases (hissued o').1 ho' with h₂ | h₂
      · exact hn.unique o o' h₁ h₂ hc hk
      · exact (hold o h₁ (h₂ ▸ hc) (h₂ ▸ hk)).elim
      · exact (hold o' h₂ (h₁ ▸ hc.symm) (h₁ ▸ hk.symm)).elim
      · rw [h₁, h₂]
  · cases h

lemma Numbered.ret (hn : ck.Numbered N) (h : ck.ret N op res = some ck') : ck'.Numbered N := by
  have hissued : ∀ o, ck'.Issued o ↔ ck.Issued o := fun o => issued_ret h
  have hnext : ck'.next = ck.next := by
    unfold Clients.ret at h
    split at h <;> cases h
    rfl
  constructor
  · intro o ho
    rw [hnext]
    exact hn.below o ((hissued o).1 ho)
  · intro o o' ho ho'
    exact hn.unique o o' ((hissued o).1 ho) ((hissued o').1 ho')

end Clients

/-! ### The object behind a log -/

/-- The state of the object, and for every client the number of its last operation with its answer. -/
@[ext] structure Session (S R : Type*) where
  state : S
  last : ℕ → Option (ℕ × R)

namespace Session

variable (X : Object S O R) (N : Numbering O)

def init : Session S R := ⟨X.init, fun _ => none⟩

/-- The operation has been executed already, or a later one of its client. -/
def done (t : Session S R) (op : O) : Bool :=
  match t.last (N.client op) with
  | none => false
  | some v => decide (N.number op ≤ v.1)

/-- The operation is executed. -/
def perform (t : Session S R) (op : O) : Session S R :=
  ⟨(X.step t.state op).1,
    Function.update t.last (N.client op) (some (N.number op, (X.step t.state op).2))⟩

/-- The next operation of the log: it is executed, or skipped. -/
def exec (t : Session S R) (op : O) : Session S R :=
  if t.done N op then t else t.perform X N op

/-- The session after a log. -/
def replay (log : List O) : Session S R := log.foldl (exec X N) (init X)

/-- The operations of the log that were executed. -/
def effects : Session S R → List O → List O
  | _, [] => []
  | t, op :: log =>
    if t.done N op then effects t log else op :: effects (t.perform X N op) log

variable {X N} {t : Session S R} {log more : List O} {op op' : O}

lemma done_iff : t.done N op = true ↔ ∃ v, t.last (N.client op) = some v ∧ N.number op ≤ v.1 := by
  unfold done
  cases t.last (N.client op) with
  | none => simp
  | some v => simp

@[simp] lemma replay_nil : replay X N [] = init X := rfl

@[simp] lemma replay_concat (log : List O) (op : O) :
    replay X N (log ++ [op]) = (replay X N log).exec X N op := by
  simp [replay]

lemma effects_cons (t : Session S R) (op : O) (log : List O) :
    effects X N t (op :: log) =
      if t.done N op then effects X N t log else op :: effects X N (t.perform X N op) log := rfl

lemma effects_append (t : Session S R) (log more : List O) :
    effects X N t (log ++ more) =
      effects X N t log ++ effects X N (log.foldl (exec X N) t) more := by
  induction log generalizing t with
  | nil => rfl
  | cons op log ih =>
    rw [List.cons_append, List.foldl_cons, effects_cons, effects_cons, exec]
    split_ifs with hd
    · exact ih t
    · rw [ih, List.cons_append]

/-- The operations of the whole log. -/
lemma effects_concat (log : List O) (op : O) :
    effects X N (init X) (log ++ [op]) =
      effects X N (init X) log ++ if (replay X N log).done N op then [] else [op] := by
  rw [effects_append]
  rfl

lemma mem_of_mem_effects (h : op ∈ effects X N t log) : op ∈ log := by
  induction log generalizing t with
  | nil => exact h
  | cons o log ih =>
    rw [effects_cons] at h
    split_ifs at h
    · exact List.mem_cons_of_mem _ (ih h)
    · rcases List.mem_cons.1 h with rfl | h
      · exact List.mem_cons_self
      · exact List.mem_cons_of_mem _ (ih h)

/-- The effects of a beginning of the log. -/
lemma effects_take (k : ℕ) (log : List O) :
    effects X N (init X) (log.take k) <+: effects X N (init X) log := by
  have happ := effects_append (X := X) (N := N) (init X) (log.take k) (log.drop k)
  rw [List.take_append_drop] at happ
  exact ⟨_, happ.symm⟩

/-! #### Duplicates -/

/-- After an operation has had its turn, its number is done. -/
lemma done_exec_self (t : Session S R) (op : O) : (t.exec X N op).done N op = true := by
  unfold exec
  split_ifs with hd
  · exact hd
  · exact done_iff.2 ⟨_, Function.update_self .., le_rfl⟩

/-- What is done stays done. -/
lemma done_exec (h : t.done N op' = true) : (t.exec X N op).done N op' = true := by
  unfold exec
  split_ifs with hd
  · exact h
  · obtain ⟨v, hv, hle⟩ := done_iff.1 h
    rw [done_iff]
    by_cases hc : N.client op' = N.client op
    · refine ⟨_, (congrArg _ hc).trans (Function.update_self ..), ?_⟩
      -- the new number is above the old one
      by_contra hlt
      refine hd (done_iff.2 ⟨v, hc ▸ hv, ?_⟩)
      change ¬ N.number op' ≤ N.number op at hlt
      omega
    · exact ⟨v, (Function.update_of_ne hc ..).trans hv, hle⟩

/-- Every operation of the log is done. -/
lemma done_of_mem (h : op ∈ log) : (replay X N log).done N op = true := by
  induction log using List.reverseRecOn with
  | nil => cases h
  | append_singleton log o ih =>
    rw [replay_concat]
    rcases List.mem_append.1 h with h | h
    · exact done_exec (ih h)
    · rw [List.mem_singleton.1 h]
      exact done_exec_self _ _

/-! #### The object -/

/-- The state after a log is the one after its operations, one by one. -/
lemma replay_state (log : List O) :
    (replay X N log).state = X.after (effects X N (init X) log) := by
  induction log using List.reverseRecOn with
  | nil => rfl
  | append_singleton log op ih =>
    rw [replay_concat, effects_concat, exec]
    split_ifs with hd
    · rw [List.append_nil]
      exact ih
    · rw [Object.after_concat, ← ih]
      rfl

/-- What is kept are answers of the object. -/
lemma replay_last {c : ℕ} {v : ℕ × R} (hv : (replay X N log).last c = some v) :
    ∃ op ∈ log, N.client op = c ∧ N.number op = v.1 ∧
      X.Answered (effects X N (init X) log) op v.2 := by
  induction log using List.reverseRecOn with
  | nil => cases hv
  | append_singleton log op ih =>
    -- the entry was there before
    have hold : (replay X N log).last c = some v → ∃ o ∈ log ++ [op], N.client o = c ∧
        N.number o = v.1 ∧ X.Answered (effects X N (init X) (log ++ [op])) o v.2 := by
      intro hv
      obtain ⟨o, ho, hc, hk, ha⟩ := ih hv
      refine ⟨o, List.mem_append_left _ ho, hc, hk, ?_⟩
      rw [effects_concat]
      exact ha.append _
    rw [replay_concat, exec] at hv
    split_ifs at hv with hd
    · exact hold hv
    · by_cases hc : c = N.client op
      · subst hc
        have hself : v = (N.number op, (X.step (replay X N log).state op).2) :=
          Option.some.inj (hv.symm.trans (Function.update_self ..))
        refine ⟨op, by simp, rfl, by rw [hself], ?_⟩
        rw [effects_concat, if_neg hd, hself, replay_state]
        exact X.answered_concat _ op
      · exact hold ((Function.update_of_ne hc ..).symm.trans hv)

end Session

/-- **The log grows**: the operation takes effect, or has had its effect before. -/
theorem Linearization.log {X : Object S O R} {N : Numbering O} {history : List (Action O R)}
    {log : List O} {op : O}
    (h : Linearization X history (Session.effects X N (Session.init X) log))
    (hcall : Action.call op ∈ history) :
    Linearization X history (Session.effects X N (Session.init X) (log ++ [op])) := by
  rw [Session.effects_concat]
  split_ifs with hd
  · rw [List.append_nil]
    exact h
  · refine h.perform hcall fun hmem => hd ?_
    exact Session.done_of_mem (Session.mem_of_mem_effects hmem)

end RaftLabs.Lib
