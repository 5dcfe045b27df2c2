import RaftLabs.Lib.GoString
import RaftLabs.Lib.Linearizable

/-!
# The clerks

The clients of both key/value services, `kvraft/client.go` and `shardkv/client.go`.  A clerk numbers
its calls, has one call open at a time, and repeats the request of that call at servers of its choice
until one of them answers `OK`; what the two kinds of clerks differ in is only which servers they
try, and in what order, which the model leaves open.  `Clerks.history` is what the users of the
clerks see, and `store` the map they are meant to see.
-/

namespace RaftLabs

open Lib

/-- What a user asks of a clerk. -/
inductive Method
  | get (key : GoString)
  | put (key value : GoString)
  | append (key value : GoString)
  deriving DecidableEq

/-- The key a call is about. -/
def Method.key : Method → GoString
  | .get key => key
  | .put key _ => key
  | .append key _ => key

/-- The request of a call, as it goes to the servers: `GetArgs` or `PutAppendArgs`. -/
structure Request where
  clientId : ℕ
  callId : ℕ
  method : Method
  deriving DecidableEq

/-- **The purpose of the services**: one map.  A key that is not there reads as the empty string,
and an update returns nothing. -/
def store : Object (GoString → Option GoString) Request GoString where
  init := fun _ => none
  step m r :=
    match r.method with
    | .get key => (m, (m key).getD [])
    | .put key value => (Function.update m key (some value), [])
    | .append key value => (Function.update m key (some ((m key).getD [] ++ value)), [])

structure Clerk where
  nextCallID : ℕ
  calling : Option Request
  deriving DecidableEq

/-- All clerks, by their `ClientID`, and what has been called and returned so far. -/
structure Clerks where
  clerk : ℕ → Clerk
  history : List (Action Request GoString)

instance instLawfulBEqAction : LawfulBEq (Action Request GoString) := inferInstance

namespace Clerks

def init : Clerks := ⟨fun _ => ⟨0, none⟩, []⟩

variable (ck : Clerks)

/-- The request of the next call of a clerk. -/
def request (clientId : ℕ) (method : Method) : Request :=
  ⟨clientId, (ck.clerk clientId).nextCallID, method⟩

/-- A clerk is called: it takes a new number.  Not possible while another call is open. -/
def call (clientId : ℕ) (method : Method) : Option Clerks :=
  if (ck.clerk clientId).calling = none then
    some
      { clerk := Function.update ck.clerk clientId
          ⟨(ck.clerk clientId).nextCallID + 1, some (ck.request clientId method)⟩
        history := ck.history ++ [.call (ck.request clientId method)] }
  else none

/-- A clerk gets `OK` for its open call and returns the value. -/
def ret (r : Request) (value : GoString) : Option Clerks :=
  if (ck.clerk r.clientId).calling = some r then
    some
      { clerk := Function.update ck.clerk r.clientId ⟨(ck.clerk r.clientId).nextCallID, none⟩
        history := ck.history ++ [.ret r value] }
  else none

/-- The request belongs to a call that has been made. -/
def Issued (r : Request) : Prop := Action.call r ∈ ck.history

/-- Clerks give every call a number of its own. -/
structure Numbered : Prop where
  below : ∀ r, ck.Issued r → r.callId < (ck.clerk r.clientId).nextCallID
  unique : ∀ r r', ck.Issued r → ck.Issued r' → r.clientId = r'.clientId → r.callId = r'.callId →
    r = r'

variable {ck} {ck' : Clerks} {clientId : ℕ} {method : Method} {r : Request} {value : GoString}

lemma call_history (h : ck.call clientId method = some ck') :
    ck'.history = ck.history ++ [.call (ck.request clientId method)] := by
  unfold call at h
  split at h <;> cases h
  rfl

lemma ret_history (h : ck.ret r value = some ck') : ck'.history = ck.history ++ [.ret r value] := by
  unfold ret at h
  split at h <;> cases h
  rfl

/-- A clerk is called only when no call of it is open, and this one is open then. -/
lemma call_calling (h : ck.call clientId method = some ck') :
    (ck.clerk clientId).calling = none ∧
    (ck'.clerk clientId).calling = some (ck.request clientId method) ∧
    ∀ c ≠ clientId, (ck'.clerk c).calling = (ck.clerk c).calling := by
  unfold call at h
  split at h <;> cases h
  rename_i hidle
  refine ⟨hidle, ?_, fun c hc => ?_⟩
  · dsimp only
    rw [Function.update_self]
  · dsimp only
    rw [Function.update_of_ne hc]

lemma ret_calling (h : ck.ret r value = some ck') :
    (ck.clerk r.clientId).calling = some r ∧ (ck'.clerk r.clientId).calling = none ∧
    ∀ c ≠ r.clientId, (ck'.clerk c).calling = (ck.clerk c).calling := by
  unfold ret at h
  split at h <;> cases h
  rename_i hopen
  refine ⟨hopen, ?_, fun c hc => ?_⟩
  · dsimp only
    rw [Function.update_self]
  · dsimp only
    rw [Function.update_of_ne hc]

lemma numbered_init : init.Numbered :=
  ⟨fun _ h => absurd h List.not_mem_nil, fun _ _ h => absurd h List.not_mem_nil⟩

/-- The request of a new call has not been issued. -/
lemma Numbered.fresh (hn : ck.Numbered) : ¬ ck.Issued (ck.request clientId method) :=
  fun h => absurd (hn.below _ h) (lt_irrefl _)

lemma issued_call (h : ck.call clientId method = some ck') :
    ck'.Issued r ↔ ck.Issued r ∨ r = ck.request clientId method := by
  unfold Issued
  rw [call_history h]
  simp

lemma issued_ret (h : ck.ret r value = some ck') {r' : Request} : ck'.Issued r' ↔ ck.Issued r' := by
  unfold Issued
  rw [ret_history h]
  simp

lemma Numbered.call (hn : ck.Numbered) (h : ck.call clientId method = some ck') :
    ck'.Numbered := by
  have hnext : ∀ c, (ck.clerk c).nextCallID ≤ (ck'.clerk c).nextCallID ∧
      (c = clientId → (ck'.clerk c).nextCallID = (ck.clerk c).nextCallID + 1) := by
    intro c
    unfold Clerks.call at h
    split at h <;> cases h
    by_cases hc : c = clientId
    · subst hc
      simp
    · simp [hc]
  -- the new request is above every old one of its clerk
  have hold : ∀ r, ck.Issued r → r.clientId = clientId → r.callId = (ck.clerk clientId).nextCallID →
      False := by
    rintro r hr rfl he
    exact absurd (hn.below r hr) (by omega)
  constructor
  · intro r hr
    rcases (issued_call h).1 hr with hr | rfl
    · exact (hn.below r hr).trans_le (hnext _).1
    · exact (Nat.lt_succ_self _).trans_eq ((hnext clientId).2 rfl).symm
  · intro r r' hr hr' hc hk
    rcases (issued_call h).1 hr with hr | rfl <;> rcases (issued_call h).1 hr' with hr' | rfl
    · exact hn.unique r r' hr hr' hc hk
    · exact (hold r hr hc hk).elim
    · exact (hold r' hr' hc.symm hk.symm).elim
    · rfl

lemma Numbered.ret (hn : ck.Numbered) (h : ck.ret r value = some ck') : ck'.Numbered := by
  have hnext : ∀ c, (ck'.clerk c).nextCallID = (ck.clerk c).nextCallID := by
    intro c
    unfold Clerks.ret at h
    split at h <;> cases h
    by_cases hc : c = r.clientId
    · subst hc
      simp
    · simp [Function.update_of_ne hc]
  constructor
  · intro r' hr'
    rw [hnext]
    exact hn.below r' ((issued_ret h).1 hr')
  · intro r₁ r₂ h₁ h₂
    exact hn.unique r₁ r₂ ((issued_ret h).1 h₁) ((issued_ret h).1 h₂)

end Clerks

end RaftLabs
