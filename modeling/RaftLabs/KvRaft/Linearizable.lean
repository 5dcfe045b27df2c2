import RaftLabs.KvRaft.System

/-!
# kvraft is linearizable

The order of the operations is that of the log, without the commands that `execOp` skips.  Three
facts about a log carry everything: the map after it is the sequential one, the table of last
operations holds results of that sequential execution, and a command whose number is in the log
already is skipped.  Every server, and every snapshot, is at some prefix of the one log (`At`).
-/

set_option linter.unusedSectionVars false

namespace RaftLabs.KvRaft

open Lib

/-! ### What a log does -/

section Log

variable {log : List Op} {op : Op} {kv : KVServer}

@[simp] lemma replay_concat (log : List Op) (op : Op) :
    replay (log ++ [op]) = (replay log).exec op := by
  simp [replay]

@[simp] lemma effects_nil : effects [] = [] := rfl

lemma effects_concat (log : List Op) (op : Op) :
    effects (log ++ [op]) = if (replay log).Done op then effects log else effects log ++ [op] := by
  unfold effects replay
  rw [List.foldl_concat, foldl_fst KVServer.exec]

lemma mem_of_mem_effects (h : op ∈ effects log) : op ∈ log := by
  induction log using List.reverseRecOn with
  | nil => exact h
  | append_singleton log op' ih =>
    rw [effects_concat] at h
    split at h
    · exact List.mem_append_left _ (ih h)
    · rcases List.mem_append.1 h with h | h
      · exact List.mem_append_left _ (ih h)
      · exact List.mem_append_right _ h

/-- Later entries of the log only add to what took effect. -/
lemma effects_append (log more : List Op) : ∃ l, effects (log ++ more) = effects log ++ l := by
  induction more using List.reverseRecOn with
  | nil => exact ⟨[], by simp⟩
  | append_singleton more op ih =>
    obtain ⟨l, hl⟩ := ih
    rw [← List.append_assoc, effects_concat, hl]
    split
    · exact ⟨l, rfl⟩
    · exact ⟨l ++ [op], by rw [List.append_assoc]⟩

/-! #### Duplicates -/

lemma exec_of_done (h : kv.Done op) :
    kv.exec op = { kv with lastApplied := kv.lastApplied + 1 } := if_pos h

lemma exec_of_not_done (h : ¬ kv.Done op) :
    kv.exec op = ({ kv with lastApplied := kv.lastApplied + 1 } : KVServer).perform op := if_neg h

/-- After a command has had its turn, its number is done. -/
lemma done_exec_self (kv : KVServer) (op : Op) : (kv.exec op).Done op := by
  by_cases h : kv.Done op
  · rw [exec_of_done h]
    exact h
  · rw [exec_of_not_done h]
    exact ⟨_, Function.update_self _ _ _, le_rfl⟩

/-- What is done stays done. -/
lemma KVServer.Done.exec {op' : Op} (h : kv.Done op') : (kv.exec op).Done op' := by
  by_cases hd : kv.Done op
  · rw [exec_of_done hd]
    exact h
  · obtain ⟨v, hv, hle⟩ := h
    rw [exec_of_not_done hd]
    by_cases hc : op'.clientId = op.clientId
    · refine ⟨_, (congrArg _ hc).trans (Function.update_self _ _ _), ?_⟩
      -- the new entry of the table is above the old one
      by_contra hlt
      exact hd ⟨v, hc ▸ hv, by
        show op.callId ≤ v.callId
        have : ¬ op'.callId ≤ op.callId := hlt
        omega⟩
    · exact ⟨v, (Function.update_of_ne hc _ _).trans hv, hle⟩

/-- Every command of the log is done. -/
lemma done_of_mem (h : op ∈ log) : (replay log).Done op := by
  induction log using List.reverseRecOn with
  | nil => cases h
  | append_singleton log op' ih =>
    rw [replay_concat]
    rcases List.mem_append.1 h with h | h
    · exact (ih h).exec
    · rw [List.mem_singleton.1 h]
      exact done_exec_self _ _

/-- Being done is a matter of the numbers. -/
lemma KVServer.Done.congr {op' : Op} (h : kv.Done op') (hc : op'.clientId = op.clientId)
    (hk : op'.callId = op.callId) : kv.Done op := by
  obtain ⟨v, hv, hle⟩ := h
  exact ⟨v, hc ▸ hv, hk ▸ hle⟩

/-- **Exactly once.**  A command whose number is in the log before it does not touch the map. -/
lemma exec_repeated {op' : Op} (h : op' ∈ log) (hc : op'.clientId = op.clientId)
    (hk : op'.callId = op.callId) : ((replay log).exec op).data = (replay log).data := by
  rw [exec_of_done ((done_of_mem h).congr hc hk)]

/-! #### The sequential map -/

/-- The command comes from a handler. -/
def Made (op : Op) : Prop := ∃ r, op = KVServer.op r

@[simp] lemma request_op (r : Request) : (KVServer.op r).request = r := by
  obtain ⟨c, k, _ | _ | _⟩ := r <;> rfl

lemma Made.op_request (h : Made op) : KVServer.op op.request = op := by
  obtain ⟨r, rfl⟩ := h
  rw [request_op]

/-- A handler's command does to the map what its request is for. -/
lemma perform_eq (kv : KVServer) (h : Made op) : kv.perform op =
    { kv with
      data := (store.step kv.data op.request).1
      lastOp := Function.update kv.lastOp op.clientId
        (some ⟨op.callId, (store.step kv.data op.request).2⟩) } := by
  obtain ⟨⟨c, k, _ | _ | _⟩, rfl⟩ := h <;> rfl

/-- The map after a log is the one after its operations, one by one. -/
lemma replay_data (h : ∀ op ∈ log, Made op) :
    (replay log).data = store.after ((effects log).map Op.request) := by
  induction log using List.reverseRecOn with
  | nil => rfl
  | append_singleton log op ih =>
    have hlog : ∀ o ∈ log, Made o := fun o ho => h o (List.mem_append_left _ ho)
    rw [replay_concat, effects_concat]
    by_cases hd : (replay log).Done op
    · rw [exec_of_done hd, if_pos hd]
      exact ih hlog
    · rw [exec_of_not_done hd, if_neg hd, perform_eq _ (h op (by simp)), List.map_append,
        List.map_singleton, Object.after_concat, ← ih hlog]

/-- The table holds results of the sequential execution. -/
lemma replay_lastOp (h : ∀ op ∈ log, Made op) {c : ℕ} {v : LastOperation}
    (hv : (replay log).lastOp c = some v) :
    ∃ op ∈ log, op.clientId = c ∧ op.callId = v.callId ∧
      store.Answered ((effects log).map Op.request) op.request v.result := by
  induction log using List.reverseRecOn generalizing v with
  | nil => cases hv
  | append_singleton log op ih =>
    have hlog : ∀ o ∈ log, Made o := fun o ho => h o (List.mem_append_left _ ho)
    -- the entry was there before
    have hold : (replay log).lastOp c = some v → ∃ o ∈ log ++ [op], o.clientId = c ∧
        o.callId = v.callId ∧
        store.Answered ((effects (log ++ [op])).map Op.request) o.request v.result := by
      intro hv
      obtain ⟨o, ho, hc, hk, ha⟩ := ih hlog hv
      obtain ⟨l, hl⟩ := effects_append log [op]
      refine ⟨o, List.mem_append_left _ ho, hc, hk, ?_⟩
      rw [hl, List.map_append]
      exact ha.append _
    rw [replay_concat] at hv
    by_cases hd : (replay log).Done op
    · rw [exec_of_done hd] at hv
      exact hold hv
    · rw [exec_of_not_done hd, perform_eq _ (h op (by simp))] at hv
      dsimp only at hv
      by_cases hc : c = op.clientId
      · subst hc
        rw [Function.update_self] at hv
        cases hv
        refine ⟨op, by simp, rfl, rfl, ?_⟩
        rw [effects_concat, if_neg hd, List.map_append, List.map_singleton]
        have := Object.answered_concat (X := store) ((effects log).map Op.request) op.request
        rw [Object.answer, ← replay_data hlog] at this
        exact this
      · rw [Function.update_of_ne hc] at hv
        exact hold hv

end Log

/-! ### Servers are at prefixes of the log -/

/-- The server has executed a prefix of the log. -/
def At (log : List Op) (kv : KVServer) : Prop :=
  kv.lastApplied ≤ log.length ∧ kv = replay (log.take kv.lastApplied)

section At

variable {log : List Op} {kv kv' : KVServer}

lemma at_init : At log KVServer.init := ⟨Nat.zero_le _, rfl⟩

lemma At.append (h : At log kv) (more : List Op) : At (log ++ more) kv := by
  obtain ⟨hle, heq⟩ := h
  refine ⟨hle.trans (by simp), ?_⟩
  rw [List.take_append_of_le_length hle]
  exact heq

/-- The next command of the log leads to the next prefix. -/
lemma At.exec (h : At log kv) {op : Op} (hop : log[kv.lastApplied]? = some op) :
    At log (kv.exec op) := by
  obtain ⟨hlt, -⟩ := List.getElem?_eq_some_iff.1 hop
  refine ⟨by rw [KVServer.exec_lastApplied]; exact hlt, ?_⟩
  rw [KVServer.exec_lastApplied, List.take_add_one, hop, Option.toList_some, replay_concat, ← h.2]

lemma At.applySnapshot (h : At log kv) {d : ℕ × Image} (hd : At log (KVServer.init.restoreState (some d)))
    (hs : kv.applySnapshot d.1 d = some kv') : At log kv' := by
  unfold KVServer.applySnapshot at hs
  split_ifs at hs
  · cases hs
    exact h
  · cases hs
    exact hd

end At

/-! ### Answers -/

/-- An answer `OK` has the value of the table. -/
lemma accept_value {order : List Request} {r : Request} {v : LastOperation}
    (h : store.Answered order r v.result) : (KVServer.accept r v).value = v.result := by
  obtain ⟨before, rest, -, hres⟩ := h
  obtain ⟨c, k, _ | _ | _⟩ := r
  · rfl
  · exact hres.symm
  · exact hres.symm

namespace System

variable {ι : Type} [DecidableEq ι] {s s' : System ι}

/-- The operations, in the order in which they took effect. -/
def order (s : System ι) : List Request := (effects s.log).map Op.request

/-- The command was made from the request of a call. -/
def Called (s : System ι) (op : Op) : Prop := ∃ r, s.clerks.Issued r ∧ op = KVServer.op r

/-- What holds of an answer `OK`. -/
def Right (s : System ι) (a : Answer) : Prop :=
  a.reply.err = .ok → a.position ≤ s.log.length ∧
    store.Answered ((effects (s.log.take a.position)).map Op.request) a.request a.reply.value

/-- What holds in every run. -/
structure Inv (s : System ι) : Prop where
  numbered : s.clerks.Numbered
  log : ∀ op ∈ s.log, s.Called op
  started : ∀ op ∈ s.started, s.Called op
  handlers : ∀ h ∈ s.handlers, s.clerks.Issued h.request
  servers : ∀ i, At s.log (s.servers i)
  snapshots : ∀ d ∈ s.snapshots, At s.log (KVServer.init.restoreState (some d))
  answers : ∀ a ∈ s.answers, s.Right a
  linear : Linearization store s.clerks.history s.order

lemma inv_init : (init : System ι).Inv where
  numbered := Clerks.numbered_init
  log _ h := absurd h List.not_mem_nil
  started _ h := absurd h List.not_mem_nil
  handlers _ h := absurd h List.not_mem_nil
  servers _ := at_init
  snapshots _ h := absurd h List.not_mem_nil
  answers _ h := absurd h List.not_mem_nil
  linear := Linearization.nil

lemma Inv.made (hi : s.Inv) {op : Op} (h : op ∈ s.log) : Made op := by
  obtain ⟨r, -, hr⟩ := hi.log op h
  exact ⟨r, hr⟩

/-- **An entry of a server's table with the number of a request is the entry of that request.** -/
lemma Inv.answered (hi : s.Inv) {i : ι} {r : Request} (hr : s.clerks.Issued r) {v : LastOperation}
    (hv : (s.servers i).lastOp r.clientId = some v) (hk : v.callId = r.callId) :
    store.Answered ((effects (s.log.take (s.servers i).lastApplied)).map Op.request) r v.result := by
  obtain ⟨-, heq⟩ := hi.servers i
  have hmem : ∀ op ∈ s.log.take (s.servers i).lastApplied, op ∈ s.log :=
    fun op hop => List.mem_of_mem_take hop
  rw [heq] at hv
  obtain ⟨op, hop, hc, hcall, ha⟩ := replay_lastOp (fun op hop => hi.made (hmem op hop)) hv
  obtain ⟨r', hr', rfl⟩ := hi.log op (hmem op hop)
  have hids : ∀ r : Request, (KVServer.op r).clientId = r.clientId ∧
      (KVServer.op r).callId = r.callId := by
    rintro ⟨c, k, _ | _ | _⟩ <;> exact ⟨rfl, rfl⟩
  have : r' = r := hi.numbered.unique r' r hr' hr ((hids r').1.symm.trans hc)
    ((hids r').2.symm.trans (hcall.trans hk))
  rw [request_op, this] at ha
  exact ha

/-- A server that accepts a request has executed it. -/
lemma Inv.respond (hi : s.Inv) {i : ι} {r : Request} {reply : Reply} (hr : s.clerks.Issued r)
    (hok : reply.err = .ok → ∃ v, (s.servers i).lastOp r.clientId = some v ∧
      v.callId = r.callId ∧ reply = KVServer.accept r v) : (s.respond i r reply).Inv := by
  refine { hi with answers := fun a ha => ?_ }
  rcases List.mem_append.1 ha with ha | ha
  · exact hi.answers a ha
  · rw [List.mem_singleton.1 ha]
    intro he
    obtain ⟨v, hv, hk, rfl⟩ := hok he
    have hans := hi.answered hr hv hk
    refine ⟨(hi.servers i).1, ?_⟩
    show store.Answered _ r (KVServer.accept r v).value
    rw [accept_value hans]
    exact hans

/-- A request arrives. -/
lemma Inv.handle (hi : s.Inv) {r : Request} (hr : s.clerks.Issued r) (i : ι) :
    (s.handle r i).Inv := by
  unfold System.handle
  split
  · rename_i reply hreply
    exact hi.respond hr (KVServer.fastPath_ok hreply)
  · refine { hi with handlers := fun h hh => ?_ }
    rcases List.mem_append.1 hh with hh | hh
    · exact hi.handlers h hh
    · rw [List.mem_singleton.1 hh]
      exact hr

/-- A handler is gone. -/
lemma Inv.erase (hi : s.Inv) (k : ℕ) : Inv { s with handlers := s.handlers.eraseIdx k } :=
  { hi with handlers := fun h hh => hi.handlers h (List.mem_of_mem_eraseIdx hh) }

lemma Inv.start (hi : s.Inv) {k : ℕ} {h : Handler ι} (hk : s.handlers[k]? = some h) (term : ℕ)
    (isLeader : Bool) : (s.start k h term isLeader).Inv := by
  have hr : s.clerks.Issued h.request := hi.handlers h (List.mem_of_getElem? hk)
  unfold System.start
  split
  · refine { hi with started := fun op hop => ?_, handlers := fun h' hh => ?_ }
    · rcases List.mem_append.1 hop with hop | hop
      · exact hi.started op hop
      · rw [List.mem_singleton.1 hop]
        exact ⟨h.request, hr, rfl⟩
    · rcases List.mem_or_eq_of_mem_set hh with hh | rfl
      · exact hi.handlers h' hh
      · exact hr
  · exact (hi.erase k).respond hr (fun h => by cases h)

lemma Inv.wake (hi : s.Inv) {k : ℕ} {h : Handler ι} (hk : s.handlers[k]? = some h)
    (startTerm checkTerm currentTerm : ℕ) : (s.wake k h startTerm checkTerm currentTerm).Inv := by
  have hr : s.clerks.Issued h.request := hi.handlers h (List.mem_of_getElem? hk)
  unfold System.wake
  split
  · exact hi
  · exact (hi.erase k).respond hr KVServer.finish_ok

/-- A server moves to another prefix. -/
lemma Inv.setServer (hi : s.Inv) {i : ι} {kv : KVServer} (h : At s.log kv) :
    (s.setServer i kv).Inv := by
  refine { hi with servers := fun j => ?_ }
  by_cases hj : j = i
  · subst hj
    show At s.log (Function.update s.servers j kv j)
    rw [Function.update_self]
    exact h
  · show At s.log (Function.update s.servers i kv j)
    rw [Function.update_of_ne hj]
    exact hi.servers j

/-- **The log grows.**  The command takes effect, unless its number is done. -/
lemma Inv.commit (hi : s.Inv) {op : Op} (hop : s.Called op) :
    Inv { s with log := s.log ++ [op] } := by
  obtain ⟨r, hr, rfl⟩ := hop
  refine { hi with
    log := fun o ho => ?_
    servers := fun i => (hi.servers i).append _
    snapshots := fun d hd => (hi.snapshots d hd).append _
    answers := fun a ha hok => ?_
    linear := ?_ }
  · rcases List.mem_append.1 ho with ho | ho
    · exact hi.log o ho
    · rw [List.mem_singleton.1 ho]
      exact ⟨r, hr, rfl⟩
  · obtain ⟨hle, hans⟩ := hi.answers a ha hok
    refine ⟨hle.trans (by simp), ?_⟩
    show store.Answered ((effects ((s.log ++ [KVServer.op r]).take a.position)).map _) _ _
    rw [List.take_append_of_le_length hle]
    exact hans
  · show Linearization store s.clerks.history ((effects (s.log ++ [KVServer.op r])).map Op.request)
    rw [effects_concat]
    split
    · exact hi.linear
    · rename_i hd
      rw [List.map_append, List.map_singleton, request_op]
      refine hi.linear.perform hr fun hmem => hd ?_
      obtain ⟨o, ho, hor⟩ := List.mem_map.1 hmem
      have hlog := mem_of_mem_effects ho
      rw [← hor, (hi.made hlog).op_request]
      exact done_of_mem hlog

/-- The clerks go on, and what was issued stays so. -/
lemma Inv.setClerks (hi : s.Inv) {ck : Clerks} (hn : ck.Numbered)
    (hmono : ∀ r, s.clerks.Issued r → ck.Issued r)
    (hlin : Linearization store ck.history s.order) : Inv { s with clerks := ck } := by
  have hcalled : ∀ op, s.Called op → Called { s with clerks := ck } op :=
    fun op ⟨r, hr, he⟩ => ⟨r, hmono r hr, he⟩
  exact { hi with
    numbered := hn
    log := fun op hop => hcalled op (hi.log op hop)
    started := fun op hop => hcalled op (hi.started op hop)
    handlers := fun h hh => hmono _ (hi.handlers h hh)
    linear := hlin }

/-- A call gets a number that no operation has. -/
lemma Inv.call (hi : s.Inv) {clientId : ℕ} {method : Method} {ck : Clerks}
    (h : s.clerks.call clientId method = some ck) : Inv { s with clerks := ck } := by
  refine hi.setClerks (hi.numbered.call h) (fun r hr => (Clerks.issued_call h).2 (Or.inl hr)) ?_
  rw [Clerks.call_history h]
  exact hi.linear.call fun hmem => hi.numbered.fresh (hi.linear.called _ hmem)

/-- An answer `OK` is the one of the whole log. -/
lemma Inv.answered_order (hi : s.Inv) {a : Answer} (ha : a ∈ s.answers) (hok : a.reply.err = .ok) :
    store.Answered s.order a.request a.reply.value := by
  obtain ⟨-, hans⟩ := hi.answers a ha hok
  obtain ⟨l, hl⟩ := effects_append (s.log.take a.position) (s.log.drop a.position)
  rw [List.take_append_drop] at hl
  unfold order
  rw [hl, List.map_append]
  exact hans.append _

/-- A clerk takes an answer. -/
lemma Inv.ret (hi : s.Inv) {a : Answer} (ha : a ∈ s.answers) (hok : a.reply.err = .ok) {ck : Clerks}
    (h : s.clerks.ret a.request a.reply.value = some ck) : Inv { s with clerks := ck } := by
  refine hi.setClerks (hi.numbered.ret h) (fun r hr => (Clerks.issued_ret h).2 hr) ?_
  rw [Clerks.ret_history h]
  exact hi.linear.ret (hi.answered_order ha hok)

/-- **One step keeps the invariant.** -/
theorem Inv.step {e : Event ι} (hi : s.Inv) (hs : s.step e = some s') : s'.Inv := by
  cases e with
  | call clientId method =>
    obtain ⟨ck, hck, rfl⟩ := Option.map_eq_some_iff.1 hs
    exact hi.call hck
  | request r i =>
    dsimp only [System.step] at hs
    split at hs
    · rename_i hr
      cases hs
      exact hi.handle hr i
    · cases hs
  | start k term isLeader =>
    obtain ⟨h, hk, hs⟩ := Option.bind_eq_some_iff.1 hs
    split at hs
    · cases hs
      exact hi.start hk term isLeader
    · cases hs
  | wake k checkTerm currentTerm =>
    obtain ⟨h, hk, hs⟩ := Option.bind_eq_some_iff.1 hs
    obtain ⟨startTerm, -, rfl⟩ := Option.map_eq_some_iff.1 hs
    exact hi.wake hk startTerm checkTerm currentTerm
  | commit k =>
    obtain ⟨op, hop, rfl⟩ := Option.map_eq_some_iff.1 hs
    exact hi.commit (hi.started op (List.mem_of_getElem? hop))
  | apply i =>
    obtain ⟨op, hop, hs⟩ := Option.bind_eq_some_iff.1 hs
    rw [KVServer.execOp_eq] at hs
    cases hs
    exact hi.setServer ((hi.servers i).exec hop)
  | makeSnapshot i =>
    cases hs
    refine { hi with snapshots := fun d hd => ?_ }
    rcases List.mem_append.1 hd with hd | hd
    · exact hi.snapshots d hd
    · rw [List.mem_singleton.1 hd]
      exact hi.servers i
  | applySnapshot i k =>
    obtain ⟨d, hd, hs⟩ := Option.bind_eq_some_iff.1 hs
    obtain ⟨kv, hkv, rfl⟩ := Option.map_eq_some_iff.1 hs
    exact hi.setServer
      ((hi.servers i).applySnapshot (hi.snapshots d (List.mem_of_getElem? hd)) hkv)
  | crash i k =>
    cases hs
    have hi' : Inv { s with handlers := s.handlers.filter fun h => h.server ≠ i } :=
      { hi with handlers := fun h hh => hi.handlers h (List.mem_of_mem_filter hh) }
    refine hi'.setServer ?_
    cases hd : s.snapshots[k]? with
    | none => exact at_init
    | some d => exact hi.snapshots d (List.mem_of_getElem? hd)
  | answer k =>
    obtain ⟨a, ha, hs⟩ := Option.bind_eq_some_iff.1 hs
    split at hs
    · rename_i hok
      obtain ⟨ck, hck, rfl⟩ := Option.map_eq_some_iff.1 hs
      exact hi.ret (List.mem_of_getElem? ha) hok hck
    · cases hs
      exact hi

lemma reachable_inv (h : Reachable step anyStep init s) : s.Inv :=
  Reachable.invariant (P := Inv) inv_init (fun _ _ _ _ hi _ hs => hi.step hs) h

/-! ### The theorem -/

/-- What the users of kvraft can rely on. -/
structure Correct (s : System ι) : Prop where
  /-- Every server is at a prefix of the log. -/
  prefixes : ∀ i, ∃ l rest, s.log = l ++ rest ∧ s.servers i = replay l
  /-- A command whose call is in the log before it leaves the map as it is. -/
  atMostOnce : ∀ l op rest, s.log = l ++ op :: rest →
    (∃ op' ∈ l, op'.clientId = op.clientId ∧ op'.callId = op.callId) →
    ((replay l).exec op).data = (replay l).data
  /-- The server that answers `OK` has executed the operation. -/
  applied : ∀ a ∈ s.answers, a.reply.err = .ok →
    KVServer.op a.request ∈ effects (s.log.take a.position)
  /-- All answers `OK` to one request are the same. -/
  sameAnswer : ∀ a ∈ s.answers, ∀ b ∈ s.answers, a.request = b.request → a.reply.err = .ok →
    b.reply.err = .ok → a.reply.value = b.reply.value
  /-- What the clerks return is what one map answers, in the order of the log. -/
  sequential : Linearization store s.clerks.history s.order

lemma Inv.applied (hi : s.Inv) {a : Answer} (ha : a ∈ s.answers) (hok : a.reply.err = .ok) :
    KVServer.op a.request ∈ effects (s.log.take a.position) := by
  obtain ⟨-, hans⟩ := hi.answers a ha hok
  obtain ⟨op, hop, he⟩ := List.mem_map.1 hans.mem
  rw [← he, (hi.made (List.mem_of_mem_take (mem_of_mem_effects hop))).op_request]
  exact hop

/-- **kvraft is linearizable, and every update is made exactly once**, for any servers and clerks
and any interleaving. -/
theorem linearizable (h : Reachable step anyStep init s) : s.Correct := by
  have hi := reachable_inv h
  constructor
  · intro i
    obtain ⟨-, heq⟩ := hi.servers i
    exact ⟨_, _, (List.take_append_drop (s.servers i).lastApplied s.log).symm, heq⟩
  · rintro l op rest - ⟨op', hop', hc, hk⟩
    exact exec_repeated hop' hc hk
  · exact fun a ha hok => hi.applied ha hok
  · intro a ha b hb hab hoka hokb
    have hans := hi.answered_order ha hoka
    rw [hab] at hans
    exact hans.unique hi.linear.once (hi.answered_order hb hokb)
  · exact hi.linear

/-- One clerk appends through two servers at once, which puts its command into the log twice, and
reads the key back. -/
def twoCalls : List (Event (Fin 2)) :=
  let r : Request := ⟨0, 0, .append [97] [1]⟩
  [.call 0 r.method, .request r 0, .request r 1, .start 0 1 true, .start 1 1 true, .commit 0,
    .commit 1, .apply 0, .apply 0, .wake 0 1 1, .answer 0, .call 0 (.get [97]),
    .request ⟨0, 1, .get [97]⟩ 0, .start 1 1 true, .commit 2, .apply 0, .wake 1 1 1, .answer 1]

theorem linearizable_twoCalls : ∃ s : System (Fin 2), Reachable step anyStep init s ∧
    s.log.length = 3 ∧ s.clerks.history =
      [.call ⟨0, 0, .append [97] [1]⟩, .ret ⟨0, 0, .append [97] [1]⟩ [],
        .call ⟨0, 1, .get [97]⟩, .ret ⟨0, 1, .get [97]⟩ [1]] ∧ s.Correct := by
  have hrun : (run step (init : System (Fin 2)) twoCalls).map
      (fun s => (s.log.length, s.clerks.history)) = some (3,
        [.call ⟨0, 0, .append [97] [1]⟩, .ret ⟨0, 0, .append [97] [1]⟩ [],
          .call ⟨0, 1, .get [97]⟩, .ret ⟨0, 1, .get [97]⟩ [1]]) := by
    decide +kernel
  obtain ⟨s, hs, heq⟩ := Option.map_eq_some_iff.1 hrun
  obtain ⟨hlen, hhist⟩ := Prod.mk.inj heq
  have hreach := Reachable.init.run hs
  exact ⟨s, hreach, hlen, hhist, linearizable hreach⟩

end System

end RaftLabs.KvRaft
