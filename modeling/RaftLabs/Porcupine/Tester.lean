import RaftLabs.KvRaft.Deployment
import RaftLabs.Porcupine.Kv
import RaftLabs.ShardKv.Stack

/-!
# The linearizability tests

`Get`, `Put` and `Append` of `kvraft/test_test.go` call a clerk and log the call with the times before and
after it; when all clients have finished, `GenericTest` gives the log to the checker.  The test of `shardkv`
does the same.  What the clerks return is linearizable with respect to `store`, so the log is linearizable
as one map, and the checker says `Ok` (`check_passes`, `check_passes_with_controller`).
-/

namespace RaftLabs.Porcupine

open Lib

/-- A call that a client of the test has made, with its result and the times `start` and `end`. -/
structure Logged where
  request : Request
  value : GoString
  start : ℤ
  finish : ℤ

/-- What is appended to the `OpLog`. -/
def Logged.operation (x : Logged) : Operation KvInput KvOutput :=
  match x.request.method with
  | .get key => ⟨⟨0, key, []⟩, x.start, ⟨x.value⟩, x.finish⟩
  | .put key value => ⟨⟨1, key, value⟩, x.start, ⟨[]⟩, x.finish⟩
  | .append key value => ⟨⟨2, key, value⟩, x.start, ⟨[]⟩, x.finish⟩

@[simp] lemma Logged.call_operation (x : Logged) : x.operation.call = x.start := by
  unfold operation
  cases x.request.method <;> rfl

@[simp] lemma Logged.returned_operation (x : Logged) : x.operation.returned = x.finish := by
  unfold operation
  cases x.request.method <;> rfl

/-- The log of a test whose clients have finished: every call is there once, and it was called and
returned between the times that were logged. -/
structure Logs (history : List (Action Request GoString)) (clock : ℕ → ℤ) (log : List Logged) :
    Prop where
  monotone : Monotone clock
  once : (log.map Logged.request).Nodup
  complete : ∀ r, Action.call r ∈ history → ∃ x ∈ log, x.request = r
  during : ∀ x ∈ log, ∃ i j : ℕ, i < j ∧ history[i]? = some (.call x.request) ∧
    history[j]? = some (.ret x.request x.value) ∧ x.start ≤ clock i ∧ clock j ≤ x.finish

section Lists

variable {α : Type*} {a b : α} {l : List α}

lemma pair_sublist_of_lt {i j : ℕ} (hij : i < j) (hi : l[i]? = some a) (hj : l[j]? = some b) :
    [a, b].Sublist l := by
  have ha : a ∈ l.take j := List.mem_of_getElem? (by rwa [List.getElem?_take_of_lt hij])
  have hb : b ∈ l.drop j := List.mem_of_getElem? (i := 0) (by rwa [List.getElem?_drop])
  have := (List.singleton_sublist.2 ha).append (List.singleton_sublist.2 hb)
  rwa [List.take_append_drop] at this

lemma not_sublist_swap (hnd : l.Nodup) (hab : [a, b].Sublist l) : ¬ [b, a].Sublist l := by
  induction l with
  | nil => cases hab
  | cons c l ih =>
    intro hba
    obtain ⟨hc, hl⟩ := List.nodup_cons.1 hnd
    cases hab with
    | cons _ hab =>
      cases hba with
      | cons _ hba => exact ih hl hab hba
      | cons_cons _ hba => exact hc (hab.subset (by simp))
    | cons_cons _ hab =>
      cases hba with
      | cons _ hba => exact hc (hba.subset (by simp))
      | cons_cons _ hba => exact hc (hab.subset (by simp))

end Lists

/-! ### The map of the services and the map of the model -/

/-- Keys that are not there read as the empty string. -/
def view (m : GoString → Option GoString) (key : GoString) : GoString := (m key).getD []

lemma view_update (m : GoString → Option GoString) (key value : GoString) :
    view (Function.update m key (some value)) = Function.update (view m) key value := by
  funext k
  by_cases hk : k = key
  · subst hk
    simp [view]
  · simp [view, Function.update_of_ne hk]

/-- **The model allows what the services answer.** -/
lemma perKey_operation (m : GoString → Option GoString) {x : Logged}
    (hvalue : x.value = (store.step m x.request).2) :
    perKey KvInput.key kvStep (view m) x.operation.input x.operation.output =
      (true, view (store.step m x.request).1) := by
  unfold Logged.operation
  unfold store at hvalue ⊢
  dsimp only at hvalue ⊢
  cases hmethod : x.request.method with
  | get key =>
    rw [hmethod] at hvalue
    simp [perKey, kvStep, view, hvalue]
  | put key value => simp [perKey, kvStep, view_update]
  | append key value => simp [perKey, kvStep, view_update, view]

section Logs

variable {history : List (Action Request GoString)} {clock : ℕ → ℤ} {log : List Logged}
variable {order : List Request} (hlog : Logs history clock log)
include hlog

lemma Logs.ret_mem {x : Logged} (hx : x ∈ log) : Action.ret x.request x.value ∈ history := by
  obtain ⟨_, _, -, -, hj, -⟩ := hlog.during x hx
  exact List.mem_of_getElem? hj

lemma Logs.times {op : Operation KvInput KvOutput} (hop : op ∈ log.map Logged.operation) :
    op.call ≤ op.returned := by
  obtain ⟨x, hx, rfl⟩ := List.mem_map.1 hop
  obtain ⟨i, j, hij, -, -, hstart, hfinish⟩ := hlog.during x hx
  have := hlog.monotone hij.le
  simp only [Logged.call_operation, Logged.returned_operation]
  omega

/-- A call that was logged to start after another one had ended came after it. -/
lemma Logs.sublist {x y : Logged} (hx : x ∈ log) (hy : y ∈ log) (hlt : y.finish < x.start) :
    [Action.ret y.request y.value, Action.call x.request].Sublist history := by
  obtain ⟨i, _, -, hi, -, hstart, -⟩ := hlog.during x hx
  obtain ⟨_, j, -, -, hj, -, hfinish⟩ := hlog.during y hy
  refine pair_sublist_of_lt ?_ hj hi
  by_contra hnot
  have := hlog.monotone (Nat.not_lt.1 hnot)
  omega

lemma Logs.legal (hlin : Linearization store history (log.map Logged.request)) (before rest : List Logged)
    (hsplit : log = before ++ rest) : Legal (perKey KvInput.key kvStep)
      (view (store.after (before.map Logged.request))) (rest.map Logged.operation) := by
  induction rest generalizing before with
  | nil => trivial
  | cons x rest ih =>
    have hx : x ∈ log := by simp [hsplit]
    have hanswer : store.Answered (log.map Logged.request) x.request
        (store.answer (before.map Logged.request) x.request) :=
      ⟨before.map Logged.request, rest.map Logged.request, by simp [hsplit], rfl⟩
    have hvalue := (hlin.answers _ _ (hlog.ret_mem hx)).unique hlin.once hanswer
    have hstep := perKey_operation _ hvalue
    have ih := ih (before ++ [x]) (by simp [hsplit])
    rw [List.map_append, List.map_singleton, Object.after_concat] at ih
    refine ⟨?_, ?_⟩
    · rw [hstep]
    · rw [hstep]
      exact ih

/-- **The log is linearizable** if the history is. -/
theorem Logs.kvLinearizable (hlin : Linearization store history order) :
    KvLinearizable (log.map Logged.operation) := by
  have hperm : order.Perm (log.map Logged.request) := by
    refine (List.perm_ext_iff_of_nodup hlin.once hlog.once).2 fun r => ?_
    rw [List.mem_map]
    constructor
    · exact fun hr => hlog.complete r (hlin.called r hr)
    · rintro ⟨x, hx, rfl⟩
      exact (hlin.answers _ _ (hlog.ret_mem hx)).mem
  obtain ⟨log', hlog', rfl⟩ := exists_perm_map hperm
  have hlogs : Logs history clock log' :=
    ⟨hlog.monotone, hlin.once, fun r hr => by
      obtain ⟨x, hx, rfl⟩ := hlog.complete r hr
      exact ⟨x, hlog'.symm.subset hx, rfl⟩, fun x hx => hlog.during x (hlog'.subset hx)⟩
  refine ⟨log'.map Logged.operation, hlog'.map _, ?_, hlogs.legal hlin [] log' rfl⟩
  refine List.pairwise_map.2 (List.pairwise_iff_forall_sublist.2 fun {x y} hxy => ?_)
  simp only [Logged.call_operation, Logged.returned_operation]
  intro hlt
  have hx : x ∈ log' := hxy.subset (by simp)
  have hy : y ∈ log' := hxy.subset (by simp)
  have hback := hlin.realTime _ _ _ (hlogs.sublist hx hy hlt) (List.mem_map_of_mem hx)
  exact not_sublist_swap hlin.once (hxy.map Logged.request) hback

/-- The checker says `Ok` to the log. -/
lemma Logs.checkOperations_ok (hlin : Linearization store history order) (hne : log ≠ [])
    {sort : List (Entry (KvInput ⊕ KvOutput)) → List (Entry (KvInput ⊕ KvOutput))} (hsort : Sorts sort)
    {arrive : List Bool → List Bool} (harrive : ∀ results, (arrive results).Perm results)
    (verbose : Bool) : ∃ enough, ∀ fuel ≥ enough,
      checkOperations kvModel sort arrive fuel (log.map Logged.operation) verbose = some .ok := by
  have htimes : ∀ op ∈ log.map Logged.operation, op.call ≤ op.returned := fun op hop => hlog.times hop
  have hparts := (kvLinearizable_iff htimes).1 (hlog.kvLinearizable hlin)
  obtain ⟨enough, hcheck⟩ := hsort.checkOperations_eq harrive kvModel_congruent
    (kvPartition_ne_nil (by simpa using hne)) (times_kvPartition htimes) verbose
  refine ⟨enough, fun fuel hfuel => ?_⟩
  obtain ⟨result, -, hresult, hok⟩ := hcheck fuel hfuel
  rw [hresult, hok.2 hparts]

end Logs

/-- **The test passes**: if every client of kvraft has finished, the checker says `Ok` to what they have
logged, in the runs that heed `Raft.HoldsHidden`. -/
theorem check_passes {n : ℕ} {d : KvRaft.Deployment n}
    (h : Reachable KvRaft.Deployment.step (KvRaft.Deployment.Heeds Raft.HoldsHidden)
      (KvRaft.Deployment.init n) d) {clock : ℕ → ℤ} {log : List Logged}
    (hlog : Logs d.clerks.history clock log) (hne : log ≠ [])
    {sort : List (Entry (KvInput ⊕ KvOutput)) → List (Entry (KvInput ⊕ KvOutput))} (hsort : Sorts sort)
    {arrive : List Bool → List Bool} (harrive : ∀ results, (arrive results).Perm results)
    (verbose : Bool) : ∃ enough, ∀ fuel ≥ enough,
      checkOperations kvModel sort arrive fuel (log.map Logged.operation) verbose = some .ok := by
  obtain ⟨s, hr, hreal, -⟩ := KvRaft.Deployment.reachable_implements h
  have hlin := (KvRaft.System.reachable_inv hr).linear
  rw [hreal.clerks] at hlin
  exact hlog.checkOperations_ok hlin hne hsort harrive verbose

/-- The log of the client in `KvRaft.Deployment.failover`. -/
def failoverLog : List Logged :=
  [⟨⟨0, 0, .append [97] [1]⟩, [], 0, 1⟩, ⟨⟨0, 1, .get [97]⟩, [1], 2, 3⟩]

theorem check_passes_failover : ∃ d : KvRaft.Deployment 3,
    Reachable KvRaft.Deployment.step (KvRaft.Deployment.Heeds Raft.HoldsHidden)
      (KvRaft.Deployment.init 3) d ∧
    Logs d.clerks.history (fun i => (i : ℤ)) failoverLog ∧
    ∃ enough, ∀ fuel ≥ enough,
      checkOperations kvModel (List.insertionSort fun a b => less b a = false) id fuel
        (failoverLog.map Logged.operation) true = some .ok := by
  have hrun : ((run (guarded KvRaft.Deployment.step (KvRaft.Deployment.Heeds Raft.HoldsHidden))
      (KvRaft.Deployment.init 3) KvRaft.Deployment.failover).map fun d => d.clerks.history) =
      some [.call ⟨0, 0, .append [97] [1]⟩, .ret ⟨0, 0, .append [97] [1]⟩ [],
        .call ⟨0, 1, .get [97]⟩, .ret ⟨0, 1, .get [97]⟩ [1]] := by
    decide +kernel
  obtain ⟨d, hd, hhist⟩ := Option.map_eq_some_iff.1 hrun
  have hlog : Logs d.clerks.history (fun i => (i : ℤ)) failoverLog := by
    rw [hhist]
    refine ⟨Nat.mono_cast, by decide, fun r hr => ?_, fun x hx => ?_⟩
    · simpa [failoverLog, eq_comm] using hr
    · simp only [failoverLog, List.mem_cons, List.not_mem_nil, or_false] at hx
      rcases hx with rfl | rfl
      · exact ⟨0, 1, by decide, rfl, rfl, by decide, by decide⟩
      · exact ⟨2, 3, by decide, rfl, rfl, by decide, by decide⟩
  have hr := Reachable.init.run_guarded hd
  exact ⟨d, hr, hlog, check_passes hr hlog (by decide) sorts_insertionSort (fun _ => .refl _) true⟩

/-- The same for `shardkv` with its controller. -/
theorem check_passes_with_controller {m n : ℕ} {x : ShardKv.Stack m n} {clientId : Ctrler.Gid → Fin n → ℕ}
    (h : Reachable ShardKv.Stack.step ShardKv.Stack.Heeds (ShardKv.Stack.init m n clientId) x)
    {clock : ℕ → ℤ} {log : List Logged} (hlog : Logs x.kv.clerks.history clock log) (hne : log ≠ [])
    {sort : List (Entry (KvInput ⊕ KvOutput)) → List (Entry (KvInput ⊕ KvOutput))} (hsort : Sorts sort)
    {arrive : List Bool → List Bool} (harrive : ∀ results, (arrive results).Perm results)
    (verbose : Bool) : ∃ enough, ∀ fuel ≥ enough,
      checkOperations kvModel sort arrive fuel (log.map Logged.operation) verbose = some .ok := by
  obtain ⟨_, _, hi⟩ := ShardKv.Stack.exists_inv h
  obtain ⟨s, hr, hreal⟩ := hi.kv
  obtain ⟨order, hl⟩ := ShardKv.System.linear hr
  obtain ⟨place, he⟩ := hl.1
  have hlin := he.linear
  rw [hreal.clerks] at hlin
  exact hlog.checkOperations_ok hlin hne hsort harrive verbose

end RaftLabs.Porcupine
