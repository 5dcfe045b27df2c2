import RaftLabs.ShardCtrler.Service

/-!
# The shard controller as it is deployed

The servers of the controller as processes of `Replicas`, on top of them the handlers of `Join`,
`Leave`, `Move` and `Query`, which first look into the table of executed commands, then call `Start` of
the Raft server in their process and wait for its index or for a new term, and the clerks of
`shardctrler/client.go`, which repeat a call until a server answers without `WrongLeader`.

In every run there is one history of configurations: every server has a beginning of it, and every
clerk is answered from it (`Deployment.one_history_over_raft`).
-/

namespace RaftLabs.Ctrler

open Lib

variable {n : ℕ}

/-! ### The handlers -/

/-- The four replies; only `QueryReply` has a configuration. -/
structure Reply where
  wrongLeader : Bool
  config : Option Config := none
  deriving DecidableEq

namespace ShardCtrler

variable (sc : ShardCtrler)

/-- The answer to a command that is the last one of its client in the table. -/
def accept (op : Op) (v : LastOperation) : Reply :=
  ⟨false, if op.args.isQuery then v.config else none⟩

/-- `checkExecuted`; `none` if the command has not been executed. -/
def checkExecuted (op : Op) : Option Reply :=
  match sc.lastOp op.clientId with
  | none => none
  | some v =>
    if v.callId < op.callId then none
    else if v.callId = op.callId then some (accept op v) else some { wrongLeader := true }

/-- The end of a handler, after the wait. -/
def finish (currentTerm startTerm : ℕ) (op : Op) : Reply :=
  if currentTerm ≠ startTerm then { wrongLeader := true }
  else
    match sc.lastOp op.clientId with
    | none => { wrongLeader := true }
    | some v => if v.callId ≠ op.callId then { wrongLeader := true } else accept op v

variable {sc} {op : Op} {reply : Reply}

/-- A positive answer comes from the entry of the command in the table. -/
lemma checkExecuted_accept (h : sc.checkExecuted op = some reply) (hok : reply.wrongLeader = false) :
    ∃ v, sc.lastOp op.clientId = some v ∧ v.callId = op.callId ∧ reply = accept op v := by
  unfold checkExecuted at h
  split at h
  · cases h
  · rename_i v hv
    split_ifs at h with h₁ h₂ <;> cases h
    · exact ⟨v, hv, h₂, rfl⟩
    · cases hok

lemma finish_accept {currentTerm startTerm : ℕ}
    (hok : (sc.finish currentTerm startTerm op).wrongLeader = false) :
    ∃ v, sc.lastOp op.clientId = some v ∧ v.callId = op.callId ∧
      sc.finish currentTerm startTerm op = accept op v := by
  unfold finish at hok ⊢
  split_ifs at hok ⊢
  split at hok
  · cases hok
  · rename_i v hv
    split_ifs at hok with hk
    refine ⟨v, hv, not_not.1 hk, ?_⟩
    rw [if_neg hk]

end ShardCtrler

/-- `check`: the handler goes on waiting. -/
def Server.check (k : Server) (currentTerm startTerm index : ℕ) : Bool :=
  currentTerm = startTerm ∧ k.lastApplied < index

/-- A handler that has been called: before `Start`, or waiting for an index since some term. -/
structure Handler (n : ℕ) where
  server : Fin n
  command : Command
  waiting : Option (ℕ × ℕ)

/-- An answer on its way to a clerk. -/
structure Answer where
  command : Command
  reply : Reply

structure Deployment (n : ℕ) where
  replicas : Replicas n shardctrler
  handlers : List (Handler n)
  answers : List Answer
  clerks : Clients Command (Option Config)

/-- What can happen next; handlers and answers are named by their place. -/
inductive DeploymentEvent (n : ℕ)
  | call (clientId : ℕ) (args : Args)
  | request (c : Command) (i : Fin n)
  | start (k : ℕ)
  | wake (k checkTerm : ℕ)
  | replicas (e : ReplicasEvent n shardctrler)
  | answer (k : ℕ)

instance (op : Op) : Decidable op.InRange :=
  match op with
  | ⟨_, _, .join _⟩ => isTrue trivial
  | ⟨_, _, .leave _⟩ => isTrue trivial
  | ⟨_, _, .move shard _⟩ => inferInstanceAs (Decidable (0 ≤ shard ∧ shard < nShards))
  | ⟨_, _, .query num⟩ => inferInstanceAs (Decidable (-1 ≤ num))

namespace Deployment

def init (n : ℕ) : Deployment n := ⟨Replicas.init n shardctrler, [], [], Clients.init⟩

variable (d : Deployment n)

def server (i : Fin n) : Server := (d.replicas.hosts i).service

def raft (i : Fin n) : Raft n Command ShardCtrler := (d.replicas.hosts i).raft

def respond (c : Command) (reply : Reply) : Deployment n :=
  { d with answers := d.answers ++ [⟨c, reply⟩] }

/-- A request arrives: the part of the handler before `Start`. -/
def handle (c : Command) (i : Fin n) : Deployment n :=
  match (d.server i).ctrler.checkExecuted c.1 with
  | some reply => d.respond c reply
  | none => { d with handlers := d.handlers ++ [⟨i, c, none⟩] }

/-- What a handler does with the result of `Start`, after which the replicas are `t`. -/
def start (k : ℕ) (h : Handler n) (t : Replicas n shardctrler) : Option (ℕ × ℕ) → Deployment n
  | some (index, startTerm) =>
    { d with
      replicas := t
      handlers := d.handlers.set k { h with waiting := some (index, startTerm) } }
  | none =>
    ({ d with replicas := t, handlers := d.handlers.eraseIdx k } : Deployment n).respond h.command
      { wrongLeader := true }

/-- A waiting handler wakes up.  `check` has read the term at some moment, and the end of the handler
reads it once more. -/
def wake (k : ℕ) (h : Handler n) (index startTerm checkTerm : ℕ) : Deployment n :=
  if (d.server h.server).check checkTerm startTerm index then d
  else
    ({ d with handlers := d.handlers.eraseIdx k } : Deployment n).respond h.command
      ((d.server h.server).ctrler.finish (d.raft h.server).getState.1 startTerm h.command.1)

/-- One step. -/
def step : DeploymentEvent n → Option (Deployment n)
  | .call clientId args =>
    -- the users of the clerks stay in range
    if hr : Op.InRange ⟨clientId, d.clerks.next clientId, args⟩ then
      (d.clerks.call numbering ⟨_, hr⟩).map fun ck => { d with clerks := ck }
    else none
  | .request c i => if Action.call c ∈ d.clerks.history then some (d.handle c i) else none
  | .start k =>
    d.handlers[k]?.bind fun h =>
      if h.waiting = none then
        ((d.raft h.server).start h.command).bind fun r =>
          (d.replicas.step (.mesh (.start h.server h.command))).map fun t => d.start k h t r.2.1
      else none
  | .wake k checkTerm =>
    d.handlers[k]?.bind fun h =>
      h.waiting.bind fun w =>
        if checkTerm ≤ (d.raft h.server).getState.1 then some (d.wake k h w.1 w.2 checkTerm)
        else none
  -- only handlers call `Start`, and the controller makes no snapshots
  | .replicas (.mesh (.start _ _)) => none
  | .replicas (.host _ .capture) => none
  | .replicas (.host i .crash) =>
    (d.replicas.step (.host i .crash)).map fun t =>
      { d with replicas := t, handlers := d.handlers.filter fun h => h.server ≠ i }
  | .replicas e => (d.replicas.step e).map fun t => { d with replicas := t }
  | .answer k =>
    d.answers[k]?.bind fun a =>
      if a.reply.wrongLeader then some d
      else (d.clerks.ret numbering a.command a.reply.config).map fun ck => { d with clerks := ck }

/-- The step does not deliver an `ApplyEntries` that `H` rules out. -/
def Heeds (H : Raft n Command ShardCtrler → ApplyEntriesArgs n Command → Prop) (d : Deployment n) :
    DeploymentEvent n → Prop
  | .replicas e => d.replicas.Heeds H e
  | _ => True

instance {H : Raft n Command ShardCtrler → ApplyEntriesArgs n Command → Prop}
    [∀ rf args, Decidable (H rf args)] (d : Deployment n) (e : DeploymentEvent n) :
    Decidable (d.Heeds H e) :=
  match e with
  | .replicas e => inferInstanceAs (Decidable (d.replicas.Heeds H e))
  | .call _ _ | .request _ _ | .start _ | .wake _ _ | .answer _ => isTrue trivial

end Deployment

/-! ### Servers are at prefixes of the log -/

/-- The commands that have taken effect on the server. -/
def Server.executed (k : Server) : ℕ :=
  match k.executing with
  | none => k.lastApplied
  | some _ => k.lastApplied - 1

/-- The server has executed a beginning of the log, and is about to execute the command after it. -/
structure At (log : List Command) (k : Server) : Prop where
  length : k.lastApplied ≤ log.length
  replay : ShardCtrler.replay ((log.take k.executed).map Subtype.val) = some k.ctrler
  next : ∀ c, k.executing = some c → log[k.executed]? = some c ∧ k.executed + 1 = k.lastApplied

section At

variable {log : List Command} {k k' : Server} {c : Command}

lemma at_init : At log Server.init := ⟨Nat.zero_le _, rfl, fun _ h => (nomatch h)⟩

lemma Server.executed_le (k : Server) : k.executed ≤ k.lastApplied := by
  unfold executed
  split <;> omega

lemma At.append (h : At log k) (more : List Command) : At (log ++ more) k := by
  have hle := k.executed_le.trans h.length
  refine ⟨h.length.trans (by simp), ?_, fun c hc => ?_⟩
  · rw [List.take_append_of_le_length hle]
    exact h.replay
  · obtain ⟨hget, heq⟩ := h.next c hc
    refine ⟨?_, heq⟩
    rw [List.getElem?_append_left (List.getElem?_eq_some_iff.1 hget).1]
    exact hget

/-- Once the command is executed. -/
lemma At.settled (h : At log k) {sc : ShardCtrler} (hs : k.settled = some sc) :
    ShardCtrler.replay ((log.take k.lastApplied).map Subtype.val) = some sc := by
  have hreplay := h.replay
  unfold Server.settled at hs
  cases hc : k.executing with
  | none =>
    rw [hc] at hs
    cases hs
    rwa [Server.executed, hc] at hreplay
  | some c =>
    rw [hc] at hs
    obtain ⟨hget, heq⟩ := h.next c hc
    rw [← heq, List.take_add_one, hget, Option.toList_some, List.map_append, List.map_singleton,
      ShardCtrler.replay_concat, hreplay]
    exact hs

lemma At.finishExec (h : At log k) : At log k.finishExec := by
  obtain ⟨sc, hsc⟩ := k.exists_settled
  have heq : k.finishExec = ⟨sc, k.lastApplied, none⟩ := by
    unfold Server.finishExec
    rw [hsc]
  rw [heq]
  exact ⟨h.length, h.settled hsc, fun _ hc => (nomatch hc)⟩

/-- The next command of the log is taken. -/
lemma At.take (h : At log k) {index : ℕ} (hget : log[k.lastApplied]? = some c)
    (hs : k.take c index = some k') : At log k' := by
  obtain ⟨rfl, sc, hsc, rfl⟩ := Server.take_eq hs
  have hlt := (List.getElem?_eq_some_iff.1 hget).1
  refine ⟨hlt, h.settled hsc, fun c' hc => ?_⟩
  cases hc
  exact ⟨hget, rfl⟩

end At

/-! ### What holds in every run -/

/-- The commands of a log that are executed, in order. -/
def order (log : List Command) : List Command :=
  Session.effects controller numbering (Session.init controller) log

/-- The configurations that a log makes. -/
def configs (log : List Command) : List Config := controller.after (order log)

/-- What holds of an answer without `WrongLeader`. -/
def Answer.Right (a : Answer) (log : List Command) : Prop :=
  a.reply.wrongLeader = false → controller.Answered (order log) a.command a.reply.config

lemma order_append (log more : List Command) : ∃ l, order (log ++ more) = order log ++ l :=
  ⟨_, Session.effects_append _ _ _⟩

lemma Answer.Right.append {a : Answer} {log : List Command} (h : a.Right log) (more : List Command) :
    a.Right (log ++ more) := by
  intro hok
  obtain ⟨l, hl⟩ := order_append log more
  rw [hl]
  exact (h hok).append l

namespace Deployment

variable {d d' : Deployment n} {log started : List Command} {i : Fin n} {c : Command}

structure Inv (d : Deployment n) (log started : List Command) : Prop where
  upholds : d.replicas.Upholds Server.Like log started
  unsaved : d.replicas.Made fun _ => False
  servers : ∀ i, At log (d.server i)
  numbered : d.clerks.Numbered numbering
  logged : ∀ c ∈ log, d.clerks.Issued c
  handed : ∀ c ∈ started, d.clerks.Issued c
  handlers : ∀ h ∈ d.handlers, d.clerks.Issued h.command
  answers : ∀ a ∈ d.answers, a.Right log
  linear : Linearization controller d.clerks.history (order log)

lemma inv_init : (init n).Inv [] [] where
  upholds := Replicas.upholds_init faithful_shardctrler
  unsaved := Replicas.made_init
  servers _ := at_init
  numbered := Clients.numbered_init
  logged _ h := absurd h List.not_mem_nil
  handed _ h := absurd h List.not_mem_nil
  handlers _ h := absurd h List.not_mem_nil
  answers _ h := absurd h List.not_mem_nil
  linear := Linearization.nil

/-- Only queries are answered with a configuration. -/
lemma answer_of_not_query {ops : List Command} (hq : c.1.args.isQuery = false) :
    controller.answer ops c = none := by
  unfold Object.answer controller
  dsimp only
  split
  · rename_i num ha
    rw [ha] at hq
    cases hq
  · rfl

/-- What stands in the table of a server is the answer to the command. -/
lemma Inv.accept_right (hi : d.Inv log started) (hc : d.clerks.Issued c) {v : LastOperation}
    (hv : (d.server i).ctrler.lastOp c.1.clientId = some v) (hk : v.callId = c.1.callId) :
    Answer.Right ⟨c, ShardCtrler.accept c.1 v⟩ log := by
  intro _
  have hlast : (Session.replay controller numbering (log.take (d.server i).executed)).last
      c.1.clientId = some (v.callId, v.config) := by
    rw [← session_replay (hi.servers i).replay]
    exact congrArg (Option.map _) hv
  obtain ⟨c', hmem, hclient, hnumber, hans⟩ := Session.replay_last hlast
  -- the number belongs to one call
  obtain rfl : c' = c := hi.numbered.unique c' c (hi.logged c' (List.mem_of_mem_take hmem)) hc hclient
    (hnumber.trans hk)
  obtain ⟨rest, hrest⟩ := Session.effects_take (X := controller) (N := numbering)
    (d.server i).executed log
  have hall : controller.Answered (order log) c' v.config := by
    unfold order
    rw [← hrest]
    exact hans.append rest
  have haccept : (ShardCtrler.accept c'.1 v).config = v.config := by
    unfold ShardCtrler.accept
    cases hq : c'.1.args.isQuery with
    | true => rfl
    | false =>
      obtain ⟨before, rest, -, hres⟩ := hall
      rw [hres, answer_of_not_query hq]
      rfl
  show controller.Answered (order log) c' (ShardCtrler.accept c'.1 v).config
  rw [haccept]
  exact hall

/-- A server answers. -/
lemma Inv.respond (hi : d.Inv log started) {reply : Reply} (hr : Answer.Right ⟨c, reply⟩ log) :
    (d.respond c reply).Inv log started := by
  refine ⟨hi.upholds, hi.unsaved, hi.servers, hi.numbered, hi.logged, hi.handed, hi.handlers,
    fun a ha => ?_, hi.linear⟩
  rcases List.mem_append.1 ha with ha | ha
  · exact hi.answers a ha
  · rw [List.mem_singleton.1 ha]
    exact hr

lemma right_wrongLeader : Answer.Right ⟨c, { wrongLeader := true }⟩ log := fun h => (nomatch h)

/-- The handlers change. -/
lemma Inv.setHandlers (hi : d.Inv log started) {handlers : List (Handler n)}
    (hh : ∀ h ∈ handlers, d.clerks.Issued h.command) :
    Inv { d with handlers := handlers } log started :=
  ⟨hi.upholds, hi.unsaved, hi.servers, hi.numbered, hi.logged, hi.handed, hh, hi.answers, hi.linear⟩

lemma Inv.call (hi : d.Inv log started) {ck : Clients Command (Option Config)}
    (h : d.clerks.call numbering c = some ck) : Inv { d with clerks := ck } log started := by
  have hissued : ∀ c', d.clerks.Issued c' → ck.Issued c' :=
    fun c' hc' => (Clients.issued_call h).2 (Or.inl hc')
  refine ⟨hi.upholds, hi.unsaved, hi.servers, hi.numbered.call h, fun c' hc' => hissued c' (hi.logged c' hc'),
    fun c' hc' => hissued c' (hi.handed c' hc'), fun h hh => hissued _ (hi.handlers h hh), hi.answers, ?_⟩
  dsimp only
  rw [Clients.call_history h]
  refine hi.linear.call fun hmem => hi.numbered.fresh h ?_
  exact hi.logged c (Session.mem_of_mem_effects hmem)

lemma Inv.request (hi : d.Inv log started) (hc : d.clerks.Issued c) (i : Fin n) :
    (d.handle c i).Inv log started := by
  unfold handle
  split
  · rename_i reply hr
    refine hi.respond fun hok => ?_
    obtain ⟨v, hv, hk, rfl⟩ := ShardCtrler.checkExecuted_accept hr hok
    exact hi.accept_right hc hv hk hok
  · refine hi.setHandlers fun h hh => ?_
    rcases List.mem_append.1 hh with hh | hh
    · exact hi.handlers h hh
    · rw [List.mem_singleton.1 hh]
      exact hc

lemma Inv.wake (hi : d.Inv log started) {k index startTerm checkTerm : ℕ} {h : Handler n}
    (hk : d.handlers[k]? = some h) : (d.wake k h index startTerm checkTerm).Inv log started := by
  unfold Deployment.wake
  split_ifs
  · exact hi
  · refine (hi.setHandlers fun h' hh' => hi.handlers h' (List.mem_of_mem_eraseIdx hh')).respond
      fun hok => ?_
    obtain ⟨v, hv, hkey, heq⟩ := ShardCtrler.finish_accept hok
    rw [heq]
    exact hi.accept_right (hi.handlers h (List.mem_of_getElem? hk)) hv hkey rfl

lemma Inv.answer (hi : d.Inv log started) {k : ℕ} (hs : d.step (.answer k) = some d') :
    d'.Inv log started := by
  obtain ⟨a, ha, hs⟩ := Option.bind_eq_some_iff.1 hs
  split_ifs at hs with hw
  · cases hs
    exact hi
  · obtain ⟨ck, hck, rfl⟩ := Option.map_eq_some_iff.1 hs
    have hissued : ∀ c', d.clerks.Issued c' → ck.Issued c' := fun c' => (Clients.issued_ret hck).2
    refine ⟨hi.upholds, hi.unsaved, hi.servers, hi.numbered.ret hck,
      fun c' hc' => hissued c' (hi.logged c' hc'), fun c' hc' => hissued c' (hi.handed c' hc'),
      fun h hh => hissued _ (hi.handlers h hh), hi.answers, ?_⟩
    dsimp only
    rw [Clients.ret_history hck]
    exact hi.linear.ret (hi.answers a (List.mem_of_getElem? ha) (by simpa using hw))

/-- A handler calls `Start`. -/
lemma Inv.start (hi : d.Inv log started) {k : ℕ} (hs : d.step (.start k) = some d') :
    ∃ started', d'.Inv log started' := by
  obtain ⟨h, hk, hs⟩ := Option.bind_eq_some_iff.1 hs
  obtain ⟨-, hs⟩ := Option.ite_none_right_eq_some.1 hs
  obtain ⟨⟨rf, res, calls⟩, -, hs⟩ := Option.bind_eq_some_iff.1 hs
  obtain ⟨t, ht, rfl⟩ := Option.map_eq_some_iff.1 hs
  have hissued := hi.handlers h (List.mem_of_getElem? hk)
  have hok : d.replicas.Heeds Raft.HoldsHidden (.mesh (.start h.server h.command)) := by
    rintro _ _ _ ⟨⟩
  have hup : t.Upholds Server.Like log (started ++ [h.command]) := by
    refine (hi.upholds.mono fun c hc => List.mem_append_left _ hc).step faithful_shardctrler hok ht ?_
    rintro i c ⟨⟩ -
    exact List.mem_append_right _ (List.mem_singleton_self _)
  have hmade := hi.unsaved.step hi.upholds.1 ht (by rintro _ ⟨⟩)
  have hservers : ∀ i, At log (t.hosts i).service := by
    obtain ⟨m, -, rfl⟩ := Option.map_eq_some_iff.1 ht
    exact hi.servers
  have hbase : Inv { d with replicas := t } log (started ++ [h.command]) := by
    refine ⟨hup, hmade, hservers, hi.numbered, hi.logged, fun c hc => ?_, hi.handlers, hi.answers,
      hi.linear⟩
    rcases List.mem_append.1 hc with hc | hc
    · exact hi.handed c hc
    · rw [List.mem_singleton.1 hc]
      exact hissued
  refine ⟨started ++ [h.command], ?_⟩
  cases res with
  | none =>
    exact (hbase.setHandlers fun h' hh' => hi.handlers h' (List.mem_of_mem_eraseIdx hh')).respond
      right_wrongLeader
  | some r =>
    refine hbase.setHandlers fun h' hh' => ?_
    rcases List.mem_or_eq_of_mem_set hh' with hh' | rfl
    · exact hi.handlers h' hh'
    · exact hissued

/-- The replicas move on along the same log. -/
lemma Inv.setReplicas (hi : d.Inv log started) {t : Replicas n shardctrler}
    (hup : t.Upholds Server.Like log started) (hmade : t.Made fun _ => False)
    (hservers : ∀ i, At log (t.hosts i).service) : Inv { d with replicas := t } log started :=
  ⟨hup, hmade, hservers, hi.numbered, hi.logged, hi.handed, hi.handlers, hi.answers, hi.linear⟩

/-- The log grows by a command that was handed to `Start`. -/
lemma Inv.extend (hi : d.Inv log started) (hc : c ∈ started)
    (hup : d.replicas.Upholds Server.Like (log ++ [c]) started) : d.Inv (log ++ [c]) started := by
  have hissued := hi.handed c hc
  refine ⟨hup, hi.unsaved, fun i => (hi.servers i).append [c], hi.numbered, fun c' hc' => ?_, hi.handed,
    hi.handlers, fun a ha => (hi.answers a ha).append [c], hi.linear.log hissued⟩
  rcases List.mem_append.1 hc' with hc' | hc'
  · exact hi.logged c' hc'
  · rw [List.mem_singleton.1 hc']
    exact hissued

/-- The next command of a server stands in the log, which may have to grow for it. -/
lemma Inv.next (hi : d.Inv log started) {batch : List (ApplyMsg Command ShardCtrler)} {index : ℕ}
    (hb : (d.replicas.hosts i).batch = .command c index :: batch)
    (hindex : index = (d.server i).lastApplied + 1) :
    ∃ log', log <+: log' ∧ d.Inv log' started ∧ log'[(d.server i).lastApplied]? = some c := by
  have hle : (d.server i).lastApplied ≤ log.length := (hi.servers i).length
  have hmem : .command c index ∈ (d.replicas.hosts i).batch := by
    rw [hb]
    exact List.mem_cons_self
  obtain hget | ⟨hlen, hc, hup⟩ := hi.upholds.command hmem (by omega)
  · refine ⟨log, List.prefix_rfl, hi, ?_⟩
    rw [hindex] at hget
    exact hget
  · refine ⟨log ++ [c], List.prefix_append _ _, hi.extend hc hup, ?_⟩
    rw [show (d.server i).lastApplied = log.length by omega]
    exact List.getElem?_concat_length

/-- A server gets ahead inside of its process: the log may have to grow for it. -/
lemma Inv.advance (hi : d.Inv log started) {e : HostEvent n shardctrler}
    {host : Host n shardctrler} (hcapture : e ≠ .capture)
    (hs : (d.replicas.hosts i).step e = some host) :
    ∃ log', log <+: log' ∧ d.Inv log' started ∧ At log' host.service := by
  have hsame : At log host.service → ∃ log', log <+: log' ∧ d.Inv log' started ∧
      At log' host.service := fun hat => ⟨log, List.prefix_rfl, hi, hat⟩
  have hat := hi.servers i
  cases e with
  | raft x =>
    cases x with
    | callSnapshot index data => cases hs
    | applyLog => cases hs
    | _ =>
      rw [Host.step_raft (by rintro _ _ ⟨⟩) (by rintro ⟨⟩)] at hs
      obtain ⟨r, -, rfl⟩ := Option.map_eq_some_iff.1 hs
      exact hsame hat
  | applyLog =>
    dsimp only [Host.step] at hs
    split at hs
    · obtain ⟨r, -, rfl⟩ := Option.map_eq_some_iff.1 hs
      exact hsame hat
    · cases hs
  | applyMsg =>
    dsimp only [Host.step] at hs
    split at hs
    · cases hs
    · rename_i msg batch hb
      obtain ⟨k, hk, rfl⟩ := Option.map_eq_some_iff.1 hs
      cases msg with
      | command c index =>
        obtain ⟨log', hpre, hi', hget⟩ := hi.next hb (Server.take_eq hk).1
        exact ⟨log', hpre, hi', (hi'.servers i).take hget hk⟩
      | snapshot data term index =>
        cases data with
        | none => cases hk
        | some data =>
          exact (hi.unsaved.batch i data term index (by rw [hb]; exact List.mem_cons_self)).elim
  | capture => exact absurd rfl hcapture
  | snapshot =>
    obtain ⟨data, -, rfl⟩ := Option.map_eq_some_iff.1 hs
    exact hsame hat
  | background b =>
    cases hs
    exact hsame hat.finishExec
  | crash =>
    -- nothing was saved but the log
    cases hs
    cases hp : (d.replicas.hosts i).raft.persister.snapshot with
    | none => exact ⟨log, List.prefix_rfl, hi, at_init⟩
    | some data => exact (hi.unsaved.persisted hi.upholds.1 hp).elim

lemma Inv.host (hi : d.Inv log started) {e : HostEvent n shardctrler} {t : Replicas n shardctrler}
    (hcapture : e ≠ .capture) (hs : d.replicas.step (.host i e) = some t) :
    ∃ log', log <+: log' ∧ Inv { d with replicas := t } log' started := by
  obtain ⟨-, host, hhost, ht⟩ := Replicas.step_host hs
  obtain ⟨log', hpre, hi', hat⟩ := hi.advance hcapture hhost
  have hset : t.hosts = Function.update d.replicas.hosts i host := by
    obtain ⟨-, rfl⟩ | ⟨-, rfl⟩ := ht <;> rfl
  have hok : d.replicas.Heeds Raft.HoldsHidden (.host i e) := trivial
  refine ⟨log', hpre, hi'.setReplicas (hi'.upholds.step faithful_shardctrler hok hs (by rintro _ _ ⟨⟩))
    (hi'.unsaved.step hi'.upholds.1 hs ?_) fun j => ?_⟩
  · rintro _ ⟨⟩
    exact absurd rfl hcapture
  · rw [hset]
    by_cases hj : j = i
    · rw [hj, Function.update_self]
      exact hat
    · rw [Function.update_of_ne hj]
      exact hi'.servers j

lemma Inv.mesh (hi : d.Inv log started) {e : MeshEvent n Command} {t : Replicas n shardctrler}
    (hok : d.replicas.Heeds Raft.HoldsHidden (.mesh e)) (hs : d.replicas.step (.mesh e) = some t)
    (hne : ∀ i c, e ≠ .start i c) : Inv { d with replicas := t } log started := by
  refine hi.setReplicas (hi.upholds.step faithful_shardctrler hok hs ?_)
    (hi.unsaved.step hi.upholds.1 hs (by rintro _ ⟨⟩)) ?_
  · rintro i c ⟨⟩
    exact absurd rfl (hne i c)
  · obtain ⟨m, -, rfl⟩ := Option.map_eq_some_iff.1 hs
    exact hi.servers

/-- **One step**, in which the log at most grows. -/
theorem Inv.step (hi : d.Inv log started) {e : DeploymentEvent n} (hok : d.Heeds Raft.HoldsHidden e)
    (hs : d.step e = some d') : ∃ log' started', log <+: log' ∧ d'.Inv log' started' := by
  have hsame : ∀ started', d'.Inv log started' →
      ∃ log' started', log <+: log' ∧ d'.Inv log' started' :=
    fun started' hi' => ⟨log, started', List.prefix_rfl, hi'⟩
  cases e with
  | call clientId args =>
    dsimp only [Deployment.step] at hs
    split_ifs at hs with hr
    obtain ⟨ck, hck, rfl⟩ := Option.map_eq_some_iff.1 hs
    exact hsame started (hi.call hck)
  | request c i =>
    obtain ⟨hc, hs⟩ := Option.ite_none_right_eq_some.1 hs
    cases hs
    exact hsame started (hi.request hc i)
  | start k =>
    obtain ⟨started', hi'⟩ := hi.start hs
    exact hsame started' hi'
  | wake k checkTerm =>
    obtain ⟨h, hk, hs⟩ := Option.bind_eq_some_iff.1 hs
    obtain ⟨w, -, hs⟩ := Option.bind_eq_some_iff.1 hs
    obtain ⟨-, hs⟩ := Option.ite_none_right_eq_some.1 hs
    cases hs
    exact hsame started (hi.wake hk)
  | answer k => exact hsame started (hi.answer hs)
  | replicas e =>
    cases e with
    | mesh e =>
      cases e with
      | start i command => cases hs
      | _ =>
        obtain ⟨t, ht, rfl⟩ := Option.map_eq_some_iff.1 hs
        exact hsame started (hi.mesh hok ht (by rintro _ _ ⟨⟩))
    | host i e =>
      cases e with
      | capture => cases hs
      | crash =>
        dsimp only [Deployment.step] at hs
        rw [Option.map_eq_some_iff] at hs
        obtain ⟨t, ht, rfl⟩ := hs
        obtain ⟨log', hpre, hi'⟩ := hi.host (by rintro ⟨⟩) ht
        exact ⟨log', started, hpre, hi'.setHandlers fun h hh => hi'.handlers h (List.mem_filter.1 hh).1⟩
      | _ =>
        dsimp only [Deployment.step] at hs
        rw [Option.map_eq_some_iff] at hs
        obtain ⟨t, ht, rfl⟩ := hs
        obtain ⟨log', hpre, hi'⟩ := hi.host (by rintro ⟨⟩) ht
        exact ⟨log', started, hpre, hi'⟩

lemma exists_inv (h : Reachable step (Heeds Raft.HoldsHidden) (init n) d) :
    ∃ log started, d.Inv log started :=
  Reachable.invariant (P := fun d => ∃ log started, Inv d log started) ⟨[], [], inv_init⟩
    (fun _ _ _ _ ⟨_, _, hi⟩ hok hs => by
      obtain ⟨log', started', -, hi'⟩ := hi.step hok hs
      exact ⟨log', started', hi'⟩) h

end Deployment

/-! ### The history of configurations -/

section Configs

variable {ops more log : List Command} {c : Command}

/-- Configurations are only added. -/
lemma after_isPrefix (ops more : List Command) :
    controller.after ops <+: controller.after (ops ++ more) := by
  induction more using List.reverseRecOn with
  | nil => rw [List.append_nil]
  | append_singleton more c ih =>
    rw [← List.append_assoc, Object.after_concat]
    refine ih.trans ?_
    unfold controller
    dsimp only
    split
    · exact List.prefix_rfl
    · exact List.prefix_append _ _

/-- What a server has made of a log. -/
lemma configs_of_replay {sc : ShardCtrler} (h : ShardCtrler.replay (log.map Subtype.val) = some sc) :
    sc.configs = configs log :=
  (congrArg Session.state (session_replay h)).trans (Session.replay_state log)

/-- Every configuration has its place as its number. -/
lemma configs_numbered {num : ℕ} {config : Config} (h : (configs log)[num]? = some config) :
    config.num = num := by
  obtain ⟨sc, hsc⟩ := ShardCtrler.replay_isSome (log.map Subtype.val) fun op hop => by
    obtain ⟨c, -, rfl⟩ := List.mem_map.1 hop
    exact c.2
  rw [← configs_of_replay hsc] at h
  exact (ShardCtrler.recorded_replay hsc).numbered num config h

lemma configs_zero : (configs log)[0]? = some Config.zero := by
  obtain ⟨rest, hrest⟩ := after_isPrefix [] (order log)
  unfold configs
  rw [← List.nil_append (order log), ← hrest]
  rfl

/-- A command in range that is not a query makes a configuration. -/
lemma exists_newConfig (sc : ShardCtrler) (hq : c.1.args.isQuery = false) :
    ∃ config, sc.newConfig c.1.args = some config := by
  have hr := c.2
  unfold Op.InRange at hr
  cases ha : c.1.args with
  | join servers =>
    obtain ⟨shards, hs, -⟩ := sc.newConfig_join servers
    exact ⟨_, hs⟩
  | leave gids =>
    obtain ⟨shards, hs, -⟩ := sc.newConfig_leave gids
    exact ⟨_, hs⟩
  | move shard gid =>
    rw [ha] at hr
    exact ⟨_, ShardCtrler.newConfig_move gid hr⟩
  | query num =>
    rw [ha] at hq
    cases hq

/-- There is one configuration for every command that is not a query. -/
lemma length_after (ops : List Command) :
    (controller.after ops).length = 1 + (ops.filter fun c => !c.1.args.isQuery).length := by
  induction ops using List.reverseRecOn with
  | nil => rfl
  | append_singleton ops c ih =>
    rw [Object.after_concat, List.filter_append, List.length_append, ← Nat.add_assoc, ← ih]
    cases hq : c.1.args.isQuery with
    | true =>
      have hstep : (controller.step (controller.after ops) c).1 = controller.after ops := by
        cases ha : c.1.args with
        | query num =>
          unfold controller
          dsimp only
          rw [ha]
        | _ =>
          rw [ha] at hq
          cases hq
      rw [hstep]
      simp [hq]
    | false =>
      obtain ⟨config, hconfig⟩ := exists_newConfig ⟨controller.after ops, fun _ => none⟩ hq
      have hstep : (controller.step (controller.after ops) c).1 =
          controller.after ops ++ [config] := by
        unfold controller at hconfig ⊢
        dsimp only at hconfig ⊢
        split
        · rename_i num ha
          rw [ha] at hq
          cases hq
        · rw [hconfig]
          rfl
      rw [hstep]
      simp [hq]

/-- A configuration that is there when a command takes effect stays. -/
lemma getElem?_configs {before : List Command} {num : ℕ} {config : Config}
    (hbefore : before ++ [c] <+: order log)
    (hget : (controller.after before)[num]? = some config) :
    (configs log)[num]? = some config := by
  obtain ⟨rest, hrest⟩ := hbefore
  obtain ⟨more, hmore⟩ := after_isPrefix before ([c] ++ rest)
  unfold configs
  rw [← hrest, List.append_assoc, ← hmore,
    List.getElem?_append_left (List.getElem?_eq_some_iff.1 hget).1]
  exact hget

/-- **What a query is answered**: the configuration it asks for, or the latest one if there is no such
configuration yet. -/
lemma answered_query {num : ℤ} {res : Option Config} (ha : c.1.args = .query num)
    (h : controller.Answered (order log) c res) : ∃ before config, res = some config ∧
      before ++ [c] <+: order log ∧ (controller.after before)[config.num]? = some config ∧
      (0 ≤ num → (config.num : ℤ) = num ∨
        (config.num : ℤ) < num ∧ (controller.after before).length = config.num + 1) := by
  obtain ⟨before, rest, horder, rfl⟩ := h
  have hpre : controller.after before <+: configs log := by
    unfold configs
    rw [horder]
    exact after_isPrefix _ _
  have hnumbered : ∀ (i : ℕ) (config : Config), (controller.after before)[i]? = some config →
      config.num = i := by
    intro i config hi
    obtain ⟨more, hmore⟩ := hpre
    have hget : (configs log)[i]? = some config := by
      rw [← hmore, List.getElem?_append_left (List.getElem?_eq_some_iff.1 hi).1]
      exact hi
    exact configs_numbered hget
  have hpos : 0 < (controller.after before).length := by
    rw [length_after]
    omega
  have hanswer : controller.answer before c =
      ShardCtrler.queried ⟨controller.after before, fun _ => none⟩ num := by
    unfold Object.answer controller
    dsimp only
    rw [ha]
  have hrange : -1 ≤ num := by
    have := c.2
    unfold Op.InRange at this
    rwa [ha] at this
  have hbefore : before ++ [c] <+: order log := ⟨rest, by rw [horder]; simp⟩
  by_cases hcase : num = -1 ∨ ((controller.after before).length : ℤ) ≤ num
  · -- the latest configuration
    obtain ⟨config, hlast⟩ : ∃ config,
        (controller.after before)[(controller.after before).length - 1]? = some config :=
      ⟨_, List.getElem?_eq_getElem (by omega)⟩
    have hnum := hnumbered _ _ hlast
    have hq : ShardCtrler.queried ⟨controller.after before, fun _ => none⟩ num = some config := by
      unfold ShardCtrler.queried ShardCtrler.latest
      rw [if_pos hcase, List.getLastD_eq_getLast?, List.getLast?_eq_getElem?, hlast]
      rfl
    refine ⟨before, config, hanswer.trans hq, hbefore, hnum ▸ hlast, fun h0 => Or.inr ?_⟩
    rw [hnum]
    omega
  · obtain ⟨config, hget⟩ : ∃ config, (controller.after before)[num.toNat]? = some config :=
      ⟨_, List.getElem?_eq_getElem (by omega)⟩
    have hnum := hnumbered _ _ hget
    have hq : ShardCtrler.queried ⟨controller.after before, fun _ => none⟩ num = some config := by
      unfold ShardCtrler.queried
      rw [if_neg hcase, if_pos (by omega)]
      exact hget
    refine ⟨before, config, hanswer.trans hq, hbefore, hnum ▸ hget, fun h0 => Or.inl ?_⟩
    rw [hnum]
    omega

end Configs

namespace Deployment

variable {d : Deployment n}

/-- What a deployment guarantees, where the replicas execute `log`. -/
structure Correct (d : Deployment n) (log : List Command) : Prop where
  /-- Every server has a beginning of one history. -/
  prefixes : ∀ i, (d.server i).ctrler.configs <+: configs log
  /-- The configurations are numbered. -/
  numbered : ∀ (num : ℕ) (config : Config), (configs log)[num]? = some config → config.num = num
  /-- There is one for each `Join`, `Leave` and `Move`, however often it was sent. -/
  exactlyOnce : (configs log).length = 1 + ((order log).filter fun c => !c.1.args.isQuery).length
  /-- A query is answered from the history. -/
  queries : ∀ a ∈ d.answers, a.reply.wrongLeader = false → ∀ num, a.command.1.args = .query num →
    ∃ config, a.reply.config = some config ∧ (configs log)[config.num]? = some config ∧
      (0 ≤ num → (config.num : ℤ) ≤ num)
  /-- What the clerks return is what one list of configurations answers, in the order of the log. -/
  sequential : Linearization controller d.clerks.history (order log)

lemma Inv.correct {started log : List Command} (hi : d.Inv log started) : d.Correct log := by
  refine ⟨fun i => ?_, fun _ _ => configs_numbered, length_after _, fun a ha hok num hq => ?_,
    hi.linear⟩
  · rw [configs_of_replay (hi.servers i).replay]
    obtain ⟨rest, hrest⟩ := Session.effects_take (X := controller) (N := numbering)
      (d.server i).executed log
    unfold configs order
    rw [← hrest]
    exact after_isPrefix _ _
  · obtain ⟨before, config, hres, hbefore, hget, hle⟩ := answered_query hq (hi.answers a ha hok)
    refine ⟨config, hres, getElem?_configs hbefore hget, fun h0 => ?_⟩
    rcases hle h0 with heq | ⟨hlt, -⟩
    · exact heq.le
    · exact hlt.le

/-- **The controller has one history over this Raft**: any number of servers and clerks, any
interleaving, with messages lost, delayed and reordered, requests sent again, and crashes, in the runs
that heed `Raft.HoldsHidden`. -/
theorem one_history_over_raft (h : Reachable step (Heeds Raft.HoldsHidden) (init n) d) :
    ∃ log, d.Correct log := by
  obtain ⟨log, started, hi⟩ := exists_inv h
  exact ⟨log, hi.correct⟩

/-- The first call in the network and its reply are delivered, and the second call is lost. -/
def exchange : List (DeploymentEvent 3) :=
  [.replicas (.mesh (.deliver 0)), .replicas (.mesh (.deliver 1)), .replicas (.mesh (.drop 0))]

/-- The first group joins. -/
def joined : Command := ⟨⟨0, 0, .join (AList.singleton 1 [])⟩, trivial⟩

/-- Another clerk asks for configuration `5`. -/
def asked : Command := ⟨⟨1, 0, .query 5⟩, by decide⟩

/-- A clerk joins a group at server `0`, which has been elected; then that server crashes, and another
clerk asks server `1` for a later configuration. -/
def failover : List (DeploymentEvent 3) :=
  List.flatten [
    [.call 0 (.join (AList.singleton 1 [])), .request joined 0,
      .replicas (.mesh (.electionTimeout 0))], exchange, [.start 0], exchange,
    [.replicas (.host 0 .applyLog), .replicas (.host 0 .applyMsg), .replicas (.host 0 (.background ())),
      .wake 0 1, .answer 0, .replicas (.host 0 .crash), .call 1 (.query 5), .request asked 1,
      .replicas (.mesh (.electionTimeout 1))], exchange, [.start 0], exchange,
    [.replicas (.host 1 .applyLog), .replicas (.host 1 .applyMsg), .replicas (.host 1 .applyMsg),
      .replicas (.host 1 (.background ())), .wake 0 2, .answer 1]]

/-- The configuration that a call returns with. -/
def returned : Action Command (Option Config) → Option Config
  | .call _ => none
  | .ret _ res => res

theorem one_history_over_raft_failover : ∃ (d : Deployment 3) (log : List Command),
    Reachable step (Heeds Raft.HoldsHidden) (init 3) d ∧
    (d.clerks.history.map fun a => (returned a).map Config.num) = [none, none, none, some 1] ∧
    d.Correct log := by
  have hrun : ((run (guarded step (Heeds Raft.HoldsHidden)) (init 3) failover).map fun d =>
      d.clerks.history.map fun a => (returned a).map Config.num) =
      some [none, none, none, some 1] := by
    decide +kernel
  obtain ⟨d, hd, hhist⟩ := Option.map_eq_some_iff.1 hrun
  have hr := Reachable.init.run_guarded hd
  obtain ⟨log, hlog⟩ := one_history_over_raft hr
  exact ⟨d, log, hr, hhist, hlog⟩

end Deployment

end RaftLabs.Ctrler
