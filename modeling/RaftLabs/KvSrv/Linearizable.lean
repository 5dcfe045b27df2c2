import RaftLabs.KvSrv.System

/-!
# kvsrv executes every update once

The order of the operations is the one in which the server executes them for the first time.  What
the table of results holds for a clerk depends on where the clerk is (`Consistent`): from the first
execution of an update on the table has its result, until `Succeed` is executed, and no request of
the call is executed after that.  A `Get` is in the order from its execution on, and is taken back
when its reply is lost.
-/

namespace RaftLabs.KvSrv

open Lib

variable {s s' : System} {order order' : List Request} {c : ℕ} {r : Request} {kv kv' : KVServer}
  {p : Place} {v : GoString}

/-- The call has not been executed, or it is an update that the server remembers. -/
def Pending (kv : KVServer) (order : List Request) (r : Request) : Prop :=
  r ∉ order ∧ kv.results (keyOf r) = none ∨
    Updates r ∧ ∃ v, kv.results (keyOf r) = some v ∧ sequentialMap.Answered order r v

/-- **What the table and the order have of an open call**, by the place of its clerk. -/
def Consistent (kv : KVServer) (order : List Request) (r : Request) : Place → Prop
  | .loop => Pending kv order r
  | .inCall none => Pending kv order r
  | .inCall (some v) => sequentialMap.Answered order r v ∧
      kv.results (keyOf r) = if Updates r then some v else none
  | .succeed v => Updates r ∧ sequentialMap.Answered order r v
  | .inSucceed v false => Updates r ∧ sequentialMap.Answered order r v
  | .inSucceed v true => Updates r ∧ sequentialMap.Answered order r v ∧
      kv.results (keyOf r) = none

/-- What happens elsewhere does not matter. -/
lemma Consistent.mono (h : Consistent kv order r p)
    (hres : kv'.results (keyOf r) = kv.results (keyOf r)) (hmem : r ∉ order → r ∉ order')
    (hans : ∀ v, sequentialMap.Answered order r v → sequentialMap.Answered order' r v) :
    Consistent kv' order' r p := by
  have hpending : Pending kv order r → Pending kv' order' r := by
    rintro (⟨hnew, hnone⟩ | ⟨hu, v, hv, ha⟩)
    · exact Or.inl ⟨hmem hnew, hres.trans hnone⟩
    · exact Or.inr ⟨hu, v, hres.trans hv, hans v ha⟩
  match p, h with
  | .loop, h => exact hpending h
  | .inCall none, h => exact hpending h
  | .inCall (some v), ⟨ha, hv⟩ => exact ⟨hans v ha, hres.trans hv⟩
  | .succeed v, ⟨hu, ha⟩ => exact ⟨hu, hans v ha⟩
  | .inSucceed v false, ⟨hu, ha⟩ => exact ⟨hu, hans v ha⟩
  | .inSucceed v true, ⟨hu, ha, hv⟩ => exact ⟨hu, hans v ha, hres.trans hv⟩

/-- What holds in every run, with the order in which the operations have taken effect. -/
structure Inv (s : System) (order : List Request) : Prop where
  lin : Linearization sequentialMap s.clerks.history order
  pairs : s.server.pairs = sequentialMap.after order
  performed : order.filter (Updates ·) = s.performed
  numbered : s.clerks.Numbered
  client : ∀ c r, s.calling c = some r → r.clientId = c
  opened : ∀ c r, s.calling c = some r → ∀ v, Action.ret r v ∉ s.clerks.history
  issued : ∀ c r, s.calling c = some r → s.clerks.Issued r
  place : ∀ c r, s.calling c = some r → Consistent s.server order r (s.place c)
  /-- The table holds nothing but results of open calls. -/
  table : ∀ key v, s.server.results key = some v →
    ∃ c r, s.calling c = some r ∧ keyOf r = key ∧ Updates r

lemma inv_init : Inv System.init [] where
  lin := .nil
  pairs := rfl
  performed := rfl
  numbered := Clerks.numbered_init
  client _ _ h := nomatch h
  opened _ _ h := nomatch h
  issued _ _ h := nomatch h
  place _ _ h := nomatch h
  table _ _ h := nomatch h

/-- **A step inside a call.**  The clerk goes to another place; the server may change what it has
of this call, and the operation may enter the order or be taken back. -/
lemma Inv.advance (hi : Inv s order) (hc : s.calling c = some r) {performed : List Request}
    (hlin : Linearization sequentialMap s.clerks.history order')
    (hpairs : kv'.pairs = sequentialMap.after order')
    (hperformed : order'.filter (Updates ·) = performed)
    (hresults : ∀ key ≠ keyOf r, kv'.results key = s.server.results key)
    (hmem : ∀ o ≠ r, o ∉ order → o ∉ order')
    (hans : ∀ o ≠ r, ∀ v, sequentialMap.Answered order o v → sequentialMap.Answered order' o v)
    (hown : Consistent kv' order' r p) (htable : ∀ v, kv'.results (keyOf r) = some v → Updates r) :
    Inv { s with server := kv', place := Function.update s.place c p, performed := performed }
      order' where
  lin := hlin
  pairs := hpairs
  performed := hperformed
  numbered := hi.numbered
  client := hi.client
  opened := hi.opened
  issued := hi.issued
  place c' r' hc' := by
    by_cases h : c' = c
    · subst h
      obtain rfl : r = r' := Option.some.inj (hc.symm.trans hc')
      dsimp only
      rw [Function.update_self]
      exact hown
    · -- another clerk has another key
      have hclient : r'.clientId ≠ r.clientId := by
        rw [hi.client c' r' hc', hi.client c r hc]
        exact h
      have hne : r' ≠ r := fun he => hclient (by rw [he])
      dsimp only
      rw [Function.update_of_ne h]
      refine (hi.place c' r' hc').mono (hresults _ fun he => ?_) (hmem r' hne) (hans r' hne)
      exact hclient (keyOf_injective he).1
  table key v hv := by
    by_cases hk : key = keyOf r
    · subst hk
      exact ⟨c, r, hc, rfl, htable v hv⟩
    · exact hi.table key v ((hresults key hk).symm.trans hv)

/-- The clerk goes to another place, and nothing else changes. -/
lemma Inv.goto (hi : Inv s order) (hc : s.calling c = some r)
    (hp : Consistent s.server order r p) : Inv (s.goto c p) order := by
  refine hi.advance hc hi.lin hi.pairs hi.performed (fun _ _ => rfl) (fun _ _ h => h)
    (fun _ _ _ h => h) hp fun v hv => ?_
  -- the table says whose entry this is
  obtain ⟨c', r', hc', hk, hu⟩ := hi.table _ v hv
  have hclient := (keyOf_injective hk).1
  rw [hi.client c' r' hc', hi.client c r hc] at hclient
  subst hclient
  obtain rfl : r = r' := Option.some.inj (hc.symm.trans hc')
  exact hu

/-- The server executes the request of a call for the first time. -/
lemma Inv.perform (hi : Inv s order) (hc : s.calling c = some r) (hnew : r ∉ order)
    (hnone : s.server.results (keyOf r) = none) : Inv (s.execute c r) (order ++ [r]) := by
  have hlin := hi.lin.perform (hi.issued c r hc) hnew
  have hmem : ∀ o ≠ r, o ∉ order → o ∉ order ++ [r] := by
    intro o ho hno
    simp [ho, hno]
  have hanswer : sequentialMap.Answered (order ++ [r]) r
      (sequentialMap.step s.server.pairs r).2 := by
    rw [hi.pairs]
    exact Object.answered_concat order r
  by_cases hu : Updates r
  · dsimp only [System.execute]
    rw [KVServer.handle_new hu hnone, if_pos ⟨hu, hnone⟩]
    refine hi.advance hc hlin ?_ ?_ ?_ hmem (fun o _ v h => h.append [r]) ?_ fun _ _ => hu
    · rw [Object.after_concat, hi.pairs]
    · simp [hi.performed, hu]
    · intro key hkey
      exact Function.update_of_ne hkey _ _
    · refine ⟨hanswer, ?_⟩
      dsimp only
      rw [Function.update_self, if_pos hu]
  · dsimp only [System.execute]
    rw [KVServer.handle_get hu, if_neg fun h => hu h.1]
    refine hi.advance hc hlin ?_ ?_ (fun _ _ => rfl) hmem (fun o _ v h => h.append [r]) ?_ ?_
    · rw [Object.after_concat, ← hi.pairs]
      exact (reads_of_not_updates hu _).symm
    · simp [hi.performed, hu]
    · refine ⟨hanswer, ?_⟩
      rw [if_neg hu]
      exact hnone
    · intro v hv
      rw [hnone] at hv
      cases hv

/-- The reply of a `Get` is lost, and with it the operation. -/
lemma Inv.forget (hi : Inv s order) (hc : s.calling c = some r) (hu : ¬ Updates r)
    (hnone : s.server.results (keyOf r) = none) :
    Inv (s.goto c .loop) (order.filter (· ≠ r)) := by
  have hreads := reads_of_not_updates hu
  have hkeep : ∀ o, decide (o ≠ r) = false → sequentialMap.Reads o := by
    intro o ho
    rw [not_not.1 (of_decide_eq_false ho)]
    exact hreads
  refine hi.advance hc (hi.lin.forget hreads (hi.opened c r hc)) ?_ ?_ (fun _ _ => rfl) ?_ ?_ ?_ ?_
  · rw [Object.after_filter hkeep]
    exact hi.pairs
  · rw [← hi.performed, List.filter_filter]
    refine List.filter_congr fun o _ => ?_
    by_cases ho : o = r
    · simp [ho, hu]
    · simp [ho]
  · intro o _ hno h
    exact hno (List.mem_filter.1 h).1
  · intro o ho v h
    exact h.filter hkeep (decide_eq_true ho)
  · exact Or.inl ⟨fun h => absurd rfl (of_decide_eq_true (List.mem_filter.1 h).2), hnone⟩
  · intro v hv
    rw [hnone] at hv
    cases hv

/-- The server executes the request of a call. -/
lemma Inv.execute (hi : Inv s order) (hc : s.calling c = some r)
    (hp : Pending s.server order r) : ∃ order', Inv (s.execute c r) order' := by
  rcases hp with ⟨hnew, hnone⟩ | ⟨hu, v, hv, ha⟩
  · exact ⟨_, hi.perform hc hnew hnone⟩
  · -- the server remembers the result
    refine ⟨order, ?_⟩
    dsimp only [System.execute]
    rw [KVServer.handle_old hu hv, if_neg fun h => by rw [hv] at h; cases h.2]
    exact hi.goto hc ⟨ha, by rw [if_pos hu]; exact hv⟩

/-- The server executes a `Succeed`. -/
lemma Inv.succeed (hi : Inv s order) (hc : s.calling c = some r) (hu : Updates r)
    (ha : sequentialMap.Answered order r v) :
    Inv ({ s with server := s.server.succeed r.clientId r.callId }.goto c (.inSucceed v true))
      order := by
  have hself : (s.server.succeed r.clientId r.callId).results (keyOf r) = none :=
    Function.update_self _ _ _
  refine hi.advance hc hi.lin hi.pairs hi.performed (fun key hkey => ?_) (fun _ _ h => h)
    (fun _ _ _ h => h) ⟨hu, ha, hself⟩ fun _ _ => hu
  exact Function.update_of_ne hkey _ _

/-- A clerk is called. -/
lemma Inv.call (hi : Inv s order) {method : Method} {ck : Clerks}
    (h : s.clerks.call c method = some ck) : Inv ({ s with clerks := ck }.goto c .loop) order := by
  obtain ⟨hidle, hself, hother⟩ := Clerks.call_calling h
  have hnew : s.clerks.request c method ∉ order := fun hmem =>
    hi.numbered.fresh (hi.lin.called _ hmem)
  have hnone : s.server.results (keyOf (s.clerks.request c method)) = none := by
    rw [Option.eq_none_iff_forall_ne_some]
    intro v hv
    obtain ⟨c', r', hc', hk, -⟩ := hi.table _ v hv
    have hclient : r'.clientId = c := (keyOf_injective hk).1
    rw [hi.client c' r' hc'] at hclient
    subst hclient
    exact absurd (hc'.symm.trans hidle) (by simp)
  -- the open calls are the old ones and the new one
  have hcases : ∀ {c' r'}, (ck.clerk c').calling = some r' →
      c' = c ∧ r' = s.clerks.request c method ∨ c' ≠ c ∧ s.calling c' = some r' := by
    intro c' r' hc'
    by_cases hc : c' = c
    · subst hc
      exact Or.inl ⟨rfl, Option.some.inj (hc'.symm.trans hself)⟩
    · exact Or.inr ⟨hc, (hother c' hc).symm.trans hc'⟩
  refine ⟨?_, hi.pairs, hi.performed, hi.numbered.call h, ?_, ?_, ?_, ?_, ?_⟩
  · show Linearization sequentialMap ck.history order
    rw [Clerks.call_history h]
    exact hi.lin.call hnew
  · intro c' r' hc'
    obtain ⟨rfl, rfl⟩ | ⟨-, hc'⟩ := hcases hc'
    · rfl
    · exact hi.client c' r' hc'
  · intro c' r' hc' v hret
    replace hret : Action.ret r' v ∈ ck.history := hret
    rw [Clerks.call_history h, List.mem_append, List.mem_singleton, or_iff_left (by simp)] at hret
    obtain ⟨rfl, rfl⟩ | ⟨-, hc'⟩ := hcases hc'
    · exact hnew (hi.lin.answers _ v hret).mem
    · exact hi.opened c' r' hc' v hret
  · intro c' r' hc'
    obtain ⟨rfl, rfl⟩ | ⟨-, hc'⟩ := hcases hc'
    · exact (Clerks.issued_call h).2 (Or.inr rfl)
    · exact (Clerks.issued_call h).2 (Or.inl (hi.issued c' r' hc'))
  · intro c' r' hc'
    show Consistent s.server order r' (Function.update s.place c .loop c')
    obtain ⟨rfl, rfl⟩ | ⟨hne, hc'⟩ := hcases hc'
    · rw [Function.update_self]
      exact Or.inl ⟨hnew, hnone⟩
    · rw [Function.update_of_ne hne]
      exact hi.place c' r' hc'
  · intro key v hv
    obtain ⟨c', r', hc', hk, hu⟩ := hi.table key v hv
    refine ⟨c', r', ?_, hk, hu⟩
    rw [← hc']
    refine hother c' fun hc => ?_
    subst hc
    exact absurd (hc'.symm.trans hidle) (by simp)

/-- A clerk returns, and the server has forgotten the call. -/
lemma Inv.ret (hi : Inv s order) (hc : s.calling c = some r)
    (ha : sequentialMap.Answered order r v) (hnone : s.server.results (keyOf r) = none)
    (h : s.ret r v = some s') : Inv s' order := by
  obtain ⟨ck, hck, rfl⟩ := Option.map_eq_some_iff.1 h
  obtain ⟨-, hself, hother⟩ := Clerks.ret_calling hck
  rw [hi.client c r hc] at hself hother
  have hopen : ∀ {c' r'}, (ck.clerk c').calling = some r' →
      c' ≠ c ∧ s.calling c' = some r' := by
    intro c' r' hc'
    have hne : c' ≠ c := by
      rintro rfl
      exact absurd (hc'.symm.trans hself) (by simp)
    exact ⟨hne, (hother c' hne).symm.trans hc'⟩
  refine ⟨?_, hi.pairs, hi.performed, hi.numbered.ret hck, ?_, ?_, ?_, ?_, ?_⟩
  · show Linearization sequentialMap ck.history order
    rw [Clerks.ret_history hck]
    exact hi.lin.ret ha
  · intro c' r' hc'
    exact hi.client c' r' (hopen hc').2
  · intro c' r' hc' v' hret
    obtain ⟨hne, hc'⟩ := hopen hc'
    replace hret : Action.ret r' v' ∈ ck.history := hret
    rw [Clerks.ret_history hck, List.mem_append, List.mem_singleton] at hret
    rcases hret with hret | hret
    · exact hi.opened c' r' hc' v' hret
    · have hr : r' = r := (Action.ret.inj hret).1
      rw [hr] at hc'
      exact hne ((hi.client c' r hc').symm.trans (hi.client c r hc))
  · intro c' r' hc'
    exact (Clerks.issued_ret hck).2 (hi.issued c' r' (hopen hc').2)
  · intro c' r' hc'
    exact hi.place c' r' (hopen hc').2
  · intro key v' hv
    obtain ⟨c', r', hc', rfl, hu⟩ := hi.table key v' hv
    refine ⟨c', r', ?_, rfl, hu⟩
    rw [← hc']
    refine hother c' fun he => ?_
    subst he
    obtain rfl : r = r' := Option.some.inj (hc.symm.trans hc')
    exact absurd (hv.symm.trans hnone) (by simp)

/-- **One step keeps the table in line with the clerks.** -/
theorem Inv.step {e : Event} (hi : Inv s order) (h : s.step e = some s') :
    ∃ order', Inv s' order' := by
  cases e with
  | call c method =>
    obtain ⟨ck, hck, rfl⟩ := Option.map_eq_some_iff.1 h
    exact ⟨order, hi.call hck⟩
  | send c =>
    obtain ⟨r, hc, h⟩ := Option.bind_eq_some_iff.1 h
    have hp := hi.place c r hc
    split at h <;> cases h
    · rename_i hplace
      rw [hplace] at hp
      exact ⟨order, hi.goto hc hp⟩
    · rename_i v hplace
      rw [hplace] at hp
      exact ⟨order, hi.goto hc hp⟩
  | execute c =>
    obtain ⟨r, hc, h⟩ := Option.bind_eq_some_iff.1 h
    have hp := hi.place c r hc
    split at h <;> cases h
    · rename_i hplace
      rw [hplace] at hp
      exact hi.execute hc hp
    · rename_i v hplace
      rw [hplace] at hp
      exact ⟨order, hi.succeed hc hp.1 hp.2⟩
  | fail c =>
    obtain ⟨r, hc, h⟩ := Option.bind_eq_some_iff.1 h
    have hp := hi.place c r hc
    split at h <;> cases h
    · rename_i reply hplace
      rw [hplace] at hp
      match reply, hp with
      | none, hp => exact ⟨order, hi.goto hc hp⟩
      | some v, ⟨ha, hv⟩ =>
        by_cases hu : Updates r
        · rw [if_pos hu] at hv
          exact ⟨order, hi.goto hc (Or.inr ⟨hu, v, hv, ha⟩)⟩
        · rw [if_neg hu] at hv
          exact ⟨_, hi.forget hc hu hv⟩
    · rename_i v executed hplace
      rw [hplace] at hp
      match executed, hp with
      | false, hp => exact ⟨order, hi.goto hc hp⟩
      | true, hp => exact ⟨order, hi.goto hc ⟨hp.1, hp.2.1⟩⟩
  | deliver c =>
    obtain ⟨r, hc, h⟩ := Option.bind_eq_some_iff.1 h
    have hp := hi.place c r hc
    split at h
    · rename_i v hplace
      rw [hplace] at hp
      obtain ⟨ha, hv⟩ := hp
      split at h
      · rename_i hu
        cases h
        exact ⟨order, hi.goto hc ⟨hu, ha⟩⟩
      · rename_i hu
        rw [if_neg hu] at hv
        exact ⟨order, hi.ret hc ha hv h⟩
    · rename_i v hplace
      rw [hplace] at hp
      exact ⟨order, hi.ret hc hp.2.1 hp.2.2 h⟩
    · cases h

lemma exists_inv (h : Reachable System.step anyStep System.init s) : ∃ order, Inv s order :=
  Reachable.invariant (P := fun s => ∃ order, Inv s order) ⟨[], inv_init⟩
    (fun _ _ _ _ ⟨_, hi⟩ _ hs => hi.step hs) h

/-- **kvsrv updates take effect exactly once.**  The map is the one that the performed updates give,
no update is performed twice, every update that has returned has been performed, an `Append`
returns the value that the key had just before it, and the history is linearizable. -/
theorem updates_exactly_once (h : Reachable System.step anyStep System.init s) :
    s.server.pairs = sequentialMap.after s.performed ∧ s.performed.Nodup ∧
    (∀ r v, Action.ret r v ∈ s.clerks.history → Updates r → ∃ before rest,
      s.performed = before ++ r :: rest ∧ ∀ key value, r.method = .append key value →
        v = (sequentialMap.after before key).getD []) ∧
    ∃ order, Linearization sequentialMap s.clerks.history order := by
  obtain ⟨order, hi⟩ := exists_inv h
  have hreads : ∀ r, decide (Updates r) = false → sequentialMap.Reads r := fun r hr =>
    reads_of_not_updates (of_decide_eq_false hr)
  refine ⟨?_, ?_, ?_, order, hi.lin⟩
  · rw [hi.pairs, ← hi.performed, Object.after_filter hreads]
  · rw [← hi.performed]
    exact hi.lin.once.filter _
  · intro r v hret hu
    obtain ⟨before, rest, he, hv⟩ :=
      (hi.lin.answers r v hret).filter hreads (decide_eq_true hu)
    refine ⟨before, rest, hi.performed.symm.trans he, fun key value hm => ?_⟩
    exact hv.trans (step_append hm _)

/-- An `Append` whose first reply is lost. -/
def lostReply : List Event :=
  [.call 0 (.append [97] [120]), .send 0, .execute 0, .fail 0, .send 0, .execute 0, .deliver 0,
    .send 0, .execute 0, .deliver 0]

theorem updates_exactly_once_lost_reply : ∃ s, Reachable System.step anyStep System.init s ∧
    Action.ret ⟨0, 0, .append [97] [120]⟩ [] ∈ s.clerks.history ∧
    s.performed = [⟨0, 0, .append [97] [120]⟩] ∧
    s.server.pairs = sequentialMap.after [⟨0, 0, .append [97] [120]⟩] := by
  have hrun : ((run System.step System.init lostReply).map fun s =>
      decide (Action.ret ⟨0, 0, .append [97] [120]⟩ [] ∈ s.clerks.history ∧
        s.performed = [⟨0, 0, .append [97] [120]⟩])) = some true := by
    decide +kernel
  obtain ⟨s, hs, hd⟩ := Option.map_eq_some_iff.1 hrun
  obtain ⟨hret, hperformed⟩ := of_decide_eq_true hd
  have hr : Reachable System.step anyStep System.init s := Reachable.init.run hs
  exact ⟨s, hr, hret, hperformed, hperformed ▸ (updates_exactly_once hr).1⟩

/-! ### The table of results -/

/-- Clerk `c` is inside `PutAppend` for its call `k`. -/
def System.InPutAppend (s : System) (c k : ℕ) : Prop :=
  ∃ r, s.calling c = some r ∧ Updates r ∧ r.callId = k

/-- Only clerks that have been called are in a call. -/
lemma Inv.finite_inPutAppend (hi : Inv s order) : {c | ∃ k, s.InPutAppend c k}.Finite := by
  let caller : Action Request GoString → ℕ
    | .call r => r.clientId
    | .ret r _ => r.clientId
  refine (s.clerks.history.finite_toSet.image caller).subset ?_
  rintro c ⟨k, r, hc, -, -⟩
  exact ⟨.call r, hi.issued c r hc, hi.client c r hc⟩

/-- Every entry of the table belongs to the call that its clerk has open. -/
lemma Inv.exists_inPutAppend (hi : Inv s order) {key : GoString}
    (h : s.server.results key ≠ none) : ∃ c k : ℕ, key = getKey c k ∧ s.InPutAppend c k := by
  obtain ⟨v, hv⟩ := Option.ne_none_iff_exists'.1 h
  obtain ⟨c, r, hc, rfl, hu⟩ := hi.table key v hv
  refine ⟨c, r.callId, ?_, r, hc, hu, rfl⟩
  rw [keyOf, hi.client c r hc]

/-- **The table of results does not leak.**  An entry is there only while its clerk is inside
`PutAppend` for that very call, so there are at most as many entries as clerks in `PutAppend`, and
no two calls share a key. -/
theorem results_within_open_updates (h : Reachable System.step anyStep System.init s) :
    (∀ key, s.server.results key ≠ none → ∃ c k : ℤ, key = getKey c k) ∧
    (∀ c k : ℤ, s.server.results (getKey c k) ≠ none →
      ∃ clerk call : ℕ, (clerk : ℤ) = c ∧ (call : ℤ) = k ∧ s.InPutAppend clerk call) ∧
    {key | s.server.results key ≠ none}.Finite ∧ {c | ∃ k, s.InPutAppend c k}.Finite ∧
    {key | s.server.results key ≠ none}.ncard ≤ {c | ∃ k, s.InPutAppend c k}.ncard ∧
    ∀ c k c' k' : ℤ, getKey c k = getKey c' k' → c = c' ∧ k = k' := by
  obtain ⟨order, hi⟩ := exists_inv h
  have hfinite := hi.finite_inPutAppend
  -- a clerk has one call open, so the clerk determines the key
  let key (c : ℕ) : GoString := ((s.calling c).map keyOf).getD []
  have himage : {key | s.server.results key ≠ none} ⊆ key '' {c | ∃ k, s.InPutAppend c k} := by
    intro key' hkey'
    obtain ⟨c, k, rfl, r, hc, hu, rfl⟩ := hi.exists_inPutAppend hkey'
    refine ⟨c, ⟨_, r, hc, hu, rfl⟩, ?_⟩
    simp only [key, hc, Option.map_some, Option.getD_some, keyOf, hi.client c r hc]
  refine ⟨?_, ?_, (hfinite.image key).subset himage, hfinite, ?_, fun _ _ _ _ => getKey_injective⟩
  · intro key' hkey'
    obtain ⟨c, k, hk, -⟩ := hi.exists_inPutAppend hkey'
    exact ⟨c, k, hk⟩
  · intro c k hkey'
    obtain ⟨c', k', hk, hin⟩ := hi.exists_inPutAppend hkey'
    obtain ⟨rfl, rfl⟩ := getKey_injective hk
    exact ⟨c', k', rfl, rfl, hin⟩
  · calc {key | s.server.results key ≠ none}.ncard
        ≤ (key '' {c | ∃ k, s.InPutAppend c k}).ncard :=
          Set.ncard_le_ncard himage (hfinite.image key)
      _ ≤ {c | ∃ k, s.InPutAppend c k}.ncard := Set.ncard_image_le hfinite

/-- After the lost reply the table has the entry of the call, and the clerk is still inside it. -/
theorem results_within_open_updates_lost_reply : ∃ s,
    Reachable System.step anyStep System.init s ∧ s.server.results (getKey 0 0) = some [] ∧
    s.InPutAppend 0 0 := by
  have hrun : ((run System.step System.init (lostReply.take 4)).map fun s =>
      decide (s.server.results (getKey 0 0) = some [])) = some true := by
    decide +kernel
  obtain ⟨s, hs, hd⟩ := Option.map_eq_some_iff.1 hrun
  have hentry := of_decide_eq_true hd
  have hr : Reachable System.step anyStep System.init s := Reachable.init.run hs
  have hentry' : s.server.results (getKey 0 0) ≠ none := by simp [hentry]
  obtain ⟨c, k, hc, hk, hin⟩ := (results_within_open_updates hr).2.1 0 0 hentry'
  obtain rfl : c = 0 := by exact_mod_cast hc
  obtain rfl : k = 0 := by exact_mod_cast hk
  exact ⟨s, hr, hentry, hin⟩

end RaftLabs.KvSrv
