import RaftLabs.Backing
import RaftLabs.KvRaft.Linearizable

/-!
# kvraft as it is deployed

`KvRaft.System` takes one common log for granted.  Here the servers are processes of `Replicas`, with
their Raft servers and the network between them, and on top of them the handlers, which call `Start`
of the Raft server in their process and read its term with `GetState`, and the clerks.  Nothing is
assumed of Raft any more but that `Raft.HoldsHidden` is heeded.

Such a deployment implements the system: whatever happens in it, the system can do as well, with the
same clerks, handlers and answers and the same states of the servers (`Realizes`).  The log of the
system grows when a server needs it to, and a server that has a new state gets it there from a
snapshot, made by one more server that no clerk talks to.
-/

namespace RaftLabs.KvRaft

open Lib

variable {n : ℕ}

structure Deployment (n : ℕ) where
  replicas : Replicas n kvraft
  handlers : List (Handler (Fin n))
  answers : List Answer
  clerks : Clerks

/-- What can happen next; handlers and answers are named by their place. -/
inductive DeploymentEvent (n : ℕ)
  | call (clientId : ℕ) (method : Method)
  | request (r : Request) (i : Fin n)
  | start (k : ℕ)
  | wake (k checkTerm : ℕ)
  | replicas (e : ReplicasEvent n kvraft)
  | answer (k : ℕ)

namespace Deployment

def init (n : ℕ) : Deployment n := ⟨Replicas.init n kvraft, [], [], Clerks.init⟩

variable (d : Deployment n)

def server (i : Fin n) : KVServer := (d.replicas.hosts i).service

def raft (i : Fin n) : Raft n Op Image := (d.replicas.hosts i).raft

/-- Server `i` answers a request. -/
def respond (i : Fin n) (r : Request) (reply : Reply) : Deployment n :=
  { d with answers := d.answers ++ [⟨r, reply, (d.server i).lastApplied⟩] }

/-- A request arrives: the part of the handler before `Start`. -/
def handle (r : Request) (i : Fin n) : Deployment n :=
  match (d.server i).fastPath r with
  | some reply => d.respond i r reply
  | none => { d with handlers := d.handlers ++ [⟨i, r, none⟩] }

/-- What a handler does with the result of `Start`, after which the replicas are `t`. -/
def start (k : ℕ) (h : Handler (Fin n)) (t : Replicas n kvraft) : Option (ℕ × ℕ) → Deployment n
  | some (_, startTerm) =>
    { d with replicas := t, handlers := d.handlers.set k { h with startTerm := some startTerm } }
  | none =>
    ({ d with replicas := t, handlers := d.handlers.eraseIdx k } : Deployment n).respond h.server
      h.request { err := .errWrongLeader }

/-- A waiting handler wakes up.  `Check` has read the term at some moment, and the end of the handler
reads it once more. -/
def wake (k : ℕ) (h : Handler (Fin n)) (startTerm checkTerm : ℕ) : Deployment n :=
  if (d.server h.server).check checkTerm h.request startTerm then d
  else
    ({ d with handlers := d.handlers.eraseIdx k } : Deployment n).respond h.server h.request
      ((d.server h.server).finish (d.raft h.server).getState.1 h.request startTerm)

/-- One step. -/
def step : DeploymentEvent n → Option (Deployment n)
  | .call clientId method => (d.clerks.call clientId method).map fun ck => { d with clerks := ck }
  | .request r i => if Action.call r ∈ d.clerks.history then some (d.handle r i) else none
  | .start k =>
    d.handlers[k]?.bind fun h =>
      if h.startTerm = none then
        ((d.raft h.server).start (KVServer.op h.request)).bind fun r =>
          (d.replicas.step (.mesh (.start h.server (KVServer.op h.request)))).map fun t =>
            d.start k h t r.2.1
      else none
  | .wake k checkTerm =>
    d.handlers[k]?.bind fun h =>
      h.startTerm.bind fun startTerm =>
        if checkTerm ≤ (d.raft h.server).getState.1 then some (d.wake k h startTerm checkTerm)
        else none
  -- only handlers call `Start`
  | .replicas (.mesh (.start _ _)) => none
  | .replicas (.host i .crash) =>
    (d.replicas.step (.host i .crash)).map fun t =>
      { d with replicas := t, handlers := d.handlers.filter fun h => h.server ≠ i }
  | .replicas e => (d.replicas.step e).map fun t => { d with replicas := t }
  | .answer k =>
    d.answers[k]?.bind fun a =>
      if a.reply.err = .ok then
        (d.clerks.ret a.request a.reply.value).map fun ck => { d with clerks := ck }
      else some d

/-- The step does not deliver an `ApplyEntries` that `H` rules out. -/
def Heeds (H : Raft n Op Image → ApplyEntriesArgs n Op → Prop) (d : Deployment n) :
    DeploymentEvent n → Prop
  | .replicas e => d.replicas.Heeds H e
  | _ => True

instance {H : Raft n Op Image → ApplyEntriesArgs n Op → Prop} [∀ rf args, Decidable (H rf args)]
    (d : Deployment n) (e : DeploymentEvent n) : Decidable (d.Heeds H e) :=
  match e with
  | .replicas e => inferInstanceAs (Decidable (d.replicas.Heeds H e))
  | .call _ _ | .request _ _ | .start _ | .wake _ _ | .answer _ => isTrue trivial

end Deployment

/-! ### What the system can do -/

lemma replay_lastApplied (log : List Op) : (replay log).lastApplied = log.length := by
  induction log using List.reverseRecOn with
  | nil => rfl
  | append_singleton log op ih => simp [ih]

/-- A replica that executes a whole log. -/
lemma applyAll_eq_replay (log : List Op) : kvraft.applyAll log = some (replay log) := by
  induction log using List.reverseRecOn with
  | nil => rfl
  | append_singleton log op ih =>
    rw [Service.applyAll_concat, ih, replay_concat, ← replay_lastApplied log]
    exact KVServer.execOp_eq _ op

namespace System

variable {ι : Type} [DecidableEq ι] {s s' : System ι}

lemma setServer_setServer (s : System ι) (i : ι) (kv kv' : KVServer) :
    (s.setServer i kv).setServer i kv' = s.setServer i kv' := by
  unfold setServer
  dsimp only
  rw [Function.update_idem]

/-- Commands that have been handed to `Start` get into the log. -/
lemma reachable_commit (h : Reachable step anyStep init s) (more : List Op)
    (hmore : ∀ op ∈ more, op ∈ s.started) :
    Reachable step anyStep init { s with log := s.log ++ more } := by
  induction more using List.reverseRecOn with
  | nil =>
    rw [List.append_nil]
    exact h
  | append_singleton more op ih =>
    have hreach := ih fun op hop => hmore op (List.mem_append_left _ hop)
    obtain ⟨k, hk⟩ := List.mem_iff_getElem?.1 (hmore op (by simp))
    refine hreach.step (.commit k) trivial ?_
    show s.started[k]?.map _ = _
    rw [hk, ← List.append_assoc]
    rfl

/-- A server without handlers replays a prefix of the log. -/
lemma reachable_replay (h : Reachable step anyStep init s) {i : ι}
    (hi : ∀ h ∈ s.handlers, h.server ≠ i) {p : ℕ} (hp : p ≤ s.log.length) :
    Reachable step anyStep init (s.setServer i (replay (s.log.take p))) := by
  induction p with
  | zero =>
    -- it crashes, and starts from nothing
    refine h.step (.crash i s.snapshots.length) trivial ?_
    have hf : s.handlers.filter (fun h => decide (h.server ≠ i)) = s.handlers := by
      rw [List.filter_eq_self]
      exact fun h hh => decide_eq_true (hi h hh)
    show some (setServer { s with handlers := s.handlers.filter fun h => h.server ≠ i } i
      (KVServer.init.restoreState s.snapshots[s.snapshots.length]?)) = _
    rw [hf, List.getElem?_eq_none le_rfl, List.take_zero]
    rfl
  | succ p ih =>
    have hreach := ih (Nat.le_of_succ_le hp)
    refine hreach.step (.apply i) trivial ?_
    set kv := replay (s.log.take p) with hkv
    have hself : (s.setServer i kv).servers i = kv := Function.update_self ..
    have hlast : kv.lastApplied = p := by
      rw [hkv, replay_lastApplied, List.length_take]
      omega
    obtain ⟨op, hop⟩ : ∃ op, s.log[p]? = some op := ⟨_, List.getElem?_eq_getElem hp⟩
    have hexec : kv.execOp op (p + 1) = some (replay (s.log.take (p + 1))) := by
      have := KVServer.execOp_eq kv op
      rw [hlast] at this
      rw [List.take_add_one, hop, Option.toList_some, replay_concat, ← hkv]
      exact this
    show (s.log[((s.setServer i kv).servers i).lastApplied]?).bind (fun op =>
      (((s.setServer i kv).servers i).execOp op (((s.setServer i kv).servers i).lastApplied + 1)).map
        ((s.setServer i kv).setServer i)) = _
    rw [hself, hlast, hop, Option.bind_some, hexec, Option.map_some, setServer_setServer]

/-- The state in which server `i` has reached `kv` and made a snapshot there. -/
def snap (s : System ι) (i : ι) (kv : KVServer) : System ι :=
  { s with
    servers := Function.update s.servers i kv
    snapshots := s.snapshots ++ [kv.makeSnapshot] }

/-- It makes a snapshot of any prefix. -/
lemma reachable_snap (h : Reachable step anyStep init s) {i : ι}
    (hi : ∀ h ∈ s.handlers, h.server ≠ i) {p : ℕ} (hp : p ≤ s.log.length) :
    Reachable step anyStep init (s.snap i (replay (s.log.take p))) := by
  refine (reachable_replay h hi hp).step (.makeSnapshot i) trivial ?_
  have hself : (s.setServer i (replay (s.log.take p))).servers i = replay (s.log.take p) :=
    Function.update_self ..
  dsimp only [step]
  rw [hself]
  rfl

/-- The states `s` and `s'` differ in the servers and snapshots only, and in the servers only in that
of `i`, which has the state `kv`, and in those without handlers. -/
structure Jumps (s : System (Option (Fin n))) (i : Fin n) (kv : KVServer)
    (s' : System (Option (Fin n))) : Prop where
  log : s'.log = s.log
  started : s'.started = s.started
  answers : s'.answers = s.answers
  clerks : s'.clerks = s.clerks
  self : s'.servers (some i) = kv
  other : ∀ j ≠ i, s'.servers (some j) = s.servers (some j)

variable {s : System (Option (Fin n))} {i : Fin n} {kv : KVServer}

lemma snap_none_servers : (s.snap none kv).servers (some i) = s.servers (some i) :=
  Function.update_of_ne (Option.some_ne_none i) kv s.servers

lemma snap_last : (s.snap none kv).snapshots[s.snapshots.length]? = some kv.makeSnapshot :=
  List.getElem?_concat_length

/-- **A server can get ahead** to any prefix of the log. -/
lemma exists_ahead (h : Reachable step anyStep init s) (hnone : ∀ h ∈ s.handlers, h.server ≠ none)
    {p : ℕ} (hp : p ≤ s.log.length) (hle : (s.servers (some i)).lastApplied ≤ p) :
    ∃ s', Reachable step anyStep init s' ∧ s'.handlers = s.handlers ∧
      Jumps s i (replay (s.log.take p)) s' := by
  have hreach := reachable_snap h hnone hp
  have hlast : (replay (s.log.take p)).lastApplied = p := by
    rw [replay_lastApplied, List.length_take]
    omega
  set kv := replay (s.log.take p) with hkv
  have happly : (s.servers (some i)).applySnapshot kv.makeSnapshot.1 kv.makeSnapshot = some kv := by
    unfold KVServer.applySnapshot
    have hnot : ¬ kv.makeSnapshot.1 < (s.servers (some i)).lastApplied :=
      not_lt.2 (hle.trans_eq hlast.symm)
    rw [if_neg (not_not.2 rfl), if_neg hnot]
    rfl
  refine ⟨(s.snap none kv).setServer (some i) kv,
    hreach.step (.applySnapshot (some i) s.snapshots.length) trivial ?_, rfl, rfl, rfl, rfl, rfl,
    Function.update_self .., fun j hj => ?_⟩
  · dsimp only [step]
    rw [snap_last, snap_none_servers]
    exact congrArg (Option.map _) happly
  · exact (Function.update_of_ne (fun h => hj (Option.some.inj h)) ..).trans snap_none_servers

/-- **A server can restart** at any prefix of the log. -/
lemma exists_restart (h : Reachable step anyStep init s) (hnone : ∀ h ∈ s.handlers, h.server ≠ none)
    {p : ℕ} (hp : p ≤ s.log.length) (i : Fin n) :
    ∃ s', Reachable step anyStep init s' ∧
      s'.handlers = s.handlers.filter (fun h => h.server ≠ some i) ∧
      Jumps s i (replay (s.log.take p)) s' := by
  have hreach := reachable_snap h hnone hp
  set kv := replay (s.log.take p) with hkv
  refine ⟨_, hreach.step (.crash (some i) s.snapshots.length) trivial rfl, rfl, rfl, rfl, rfl, rfl, ?_,
    fun j hj => ?_⟩
  · refine (Function.update_self ..).trans ?_
    rw [snap_last]
    rfl
  · refine (Function.update_of_ne (fun h => hj (Option.some.inj h)) ..).trans ?_
    exact Function.update_of_ne (Option.some_ne_none j) kv s.servers

end System

/-! ### The deployment implements the system -/

namespace Deployment

variable {d d' : Deployment n} {s : System (Option (Fin n))} {i : Fin n}

/-- The same handler in the system, where there is one more server. -/
def toHandler (h : Handler (Fin n)) : Handler (Option (Fin n)) := ⟨some h.server, h.request, h.startTerm⟩

/-- The clerks and the servers cannot tell the deployment from the system. -/
structure Realizes (d : Deployment n) (s : System (Option (Fin n))) : Prop where
  handlers : s.handlers = d.handlers.map toHandler
  answers : s.answers = d.answers
  clerks : s.clerks = d.clerks
  servers : ∀ i, s.servers (some i) = d.server i

/-- Raft upholds the log of the system. -/
def Backs (t : Replicas n kvraft) (s : System (Option (Fin n))) : Prop :=
  t.Upholds (fun kv₀ kv : KVServer => kv = kv₀) s.log s.started

lemma Realizes.server_ne_none (h : Realizes d s) : ∀ h ∈ s.handlers, h.server ≠ none := by
  rw [h.handlers]
  intro h hh
  obtain ⟨h', -, rfl⟩ := List.mem_map.1 hh
  exact Option.some_ne_none _

/-- The log of the system is extended to what a server has executed. -/
lemma Backs.exists_log {t : Replicas n kvraft} (h : Backs t s)
    (hr : Reachable System.step anyStep System.init s) (i : Fin n) :
    ∃ more p, Reachable System.step anyStep System.init { s with log := s.log ++ more } ∧
      Backs t { s with log := s.log ++ more } ∧ p ≤ (s.log ++ more).length ∧
      (t.hosts i).service = replay ((s.log ++ more).take p) := by
  obtain ⟨more, p, hmore, hup, hp, kv₀, hkv₀, heq⟩ := Replicas.Upholds.exists_replays h i
  rw [applyAll_eq_replay] at hkv₀
  refine ⟨more, p.length, System.reachable_commit hr more hmore, hup, hp.length_le, ?_⟩
  rw [← List.prefix_iff_eq_take.1 hp]
  exact heq.trans (Option.some.inj hkv₀).symm

lemma Backs.congr {t : Replicas n kvraft} {s' : System (Option (Fin n))} (h : Backs t s)
    (hlog : s'.log = s.log) (hstarted : ∀ op ∈ s.started, op ∈ s'.started) : Backs t s' := by
  unfold Backs
  rw [hlog]
  exact h.mono hstarted

/-- **What carries the refinement**: the system can do what the deployment has done. -/
def Implements (d : Deployment n) : Prop :=
  ∃ s, Reachable System.step anyStep System.init s ∧ Realizes d s ∧ Backs d.replicas s

lemma implements_init : (init n).Implements :=
  ⟨System.init, .init, ⟨rfl, rfl, rfl, fun _ => rfl⟩, Replicas.upholds_init faithful_kvraft⟩

/-- Nothing happens to the replicas, and the system makes one step. -/
lemma Implements.of_step (h : d.Implements)
    (hrep : d'.replicas = d.replicas)
    (hstep : ∀ s, Realizes d s → ∃ s', (∃ e, s.step e = some s') ∧ Realizes d' s' ∧
      s'.log = s.log ∧ s'.started = s.started) : d'.Implements := by
  obtain ⟨s, hr, hreal, hb⟩ := h
  obtain ⟨s', ⟨e, hs⟩, hreal', hlog, hstarted⟩ := hstep s hreal
  refine ⟨s', hr.step e trivial hs, hreal', ?_⟩
  rw [hrep]
  exact hb.congr hlog fun op hop => hstarted ▸ hop

/-- Something happens in the network. -/
lemma Implements.mesh (h : d.Implements) {e : MeshEvent n Op} {t : Replicas n kvraft}
    (hok : d.replicas.Heeds Raft.HoldsHidden (.mesh e)) (hs : d.replicas.step (.mesh e) = some t)
    (hne : ∀ i op, e ≠ .start i op) : Implements { d with replicas := t } := by
  obtain ⟨s, hr, hreal, hb⟩ := h
  have hb' : Backs t s := Replicas.Upholds.step faithful_kvraft hb hok hs fun i op he => by
    cases he
    exact absurd rfl (hne i op)
  refine ⟨s, hr, ⟨hreal.handlers, hreal.answers, hreal.clerks, fun i => ?_⟩, hb'⟩
  obtain ⟨m, -, rfl⟩ := Option.map_eq_some_iff.1 hs
  exact hreal.servers i

/-- Something happens inside of a process: the system brings its server to the new state. -/
lemma Implements.host (h : d.Implements) {i : Fin n} {e : HostEvent n kvraft}
    {t : Replicas n kvraft} (hs : d.replicas.step (.host i e) = some t) :
    (e ≠ .crash → Implements { d with replicas := t }) ∧
    (e = .crash → Implements { d with replicas := t
                                      handlers := d.handlers.filter fun h => h.server ≠ i }) := by
  obtain ⟨s, hr, hreal, hb⟩ := h
  obtain ⟨-, host, hhost, ht⟩ := Replicas.step_host hs
  have hset : t.hosts = Function.update d.replicas.hosts i host := by
    obtain ⟨-, rfl⟩ | ⟨-, rfl⟩ := ht <;> rfl
  have hother : ∀ j ≠ i, (t.hosts j).service = d.server j := by
    intro j hj
    rw [hset, Function.update_of_ne hj]
    rfl
  have hok : d.replicas.Heeds Raft.HoldsHidden (.host i e) := trivial
  have hb' : Backs t s := Replicas.Upholds.step faithful_kvraft hb hok hs (by rintro _ _ ⟨⟩)
  obtain ⟨more, p, hr', hb'', hp, hservice⟩ := hb'.exists_log hr i
  have hnone : ∀ h ∈ s.handlers, h.server ≠ none := hreal.server_ne_none
  have hservers : ∀ s', System.Jumps { s with log := s.log ++ more } i
      (replay ((s.log ++ more).take p)) s' → ∀ j, s'.servers (some j) = (t.hosts j).service := by
    intro s' hjump j
    by_cases hj : j = i
    · subst hj
      rw [hjump.self, hservice]
    · rw [hjump.other j hj, hother j hj]
      exact hreal.servers j
  have hback : ∀ s', System.Jumps { s with log := s.log ++ more } i
      (replay ((s.log ++ more).take p)) s' → Backs t s' := fun s' hjump =>
    hb''.congr hjump.log fun op hop => hjump.started ▸ hop
  constructor
  · intro hcrash
    have hle : (s.servers (some i)).lastApplied ≤ p := by
      have hmono := Host.lastApplied_le_step hhost hcrash
      have hself : t.hosts i = host := by rw [hset, Function.update_self]
      rw [hself] at hservice
      rw [hservice] at hmono
      rw [hreal.servers i]
      refine hmono.trans ?_
      show (replay ((s.log ++ more).take p)).lastApplied ≤ p
      rw [replay_lastApplied, List.length_take]
      exact min_le_left _ _
    obtain ⟨s', hreach, hhandlers, hjump⟩ := System.exists_ahead hr' hnone hp hle
    exact ⟨s', hreach, ⟨hhandlers.trans hreal.handlers,
      hjump.answers.trans hreal.answers, hjump.clerks.trans hreal.clerks, hservers s' hjump⟩,
      hback s' hjump⟩
  · intro _
    obtain ⟨s', hreach, hhandlers, hjump⟩ := System.exists_restart hr' hnone hp i
    refine ⟨s', hreach, ⟨?_, hjump.answers.trans hreal.answers,
      hjump.clerks.trans hreal.clerks, hservers s' hjump⟩, hback s' hjump⟩
    rw [hhandlers]
    show s.handlers.filter _ = _
    rw [hreal.handlers, List.filter_map]
    exact congrArg (List.map toHandler) (List.filter_congr fun h _ => by simp [toHandler])

lemma Realizes.getElem? (h : Realizes d s) {k : ℕ} {hd : Handler (Fin n)}
    (hk : d.handlers[k]? = some hd) : s.handlers[k]? = some (toHandler hd) := by
  rw [h.handlers, List.getElem?_map, hk]
  rfl

/-- Both answer, and the answers are the same. -/
lemma Realizes.respond (h : Realizes d s) (i : Fin n) (r : Request) (reply : Reply) :
    Realizes (d.respond i r reply) (s.respond (some i) r reply) := by
  refine ⟨h.handlers, ?_, h.clerks, h.servers⟩
  unfold System.respond Deployment.respond
  dsimp only
  rw [h.answers, h.servers i]

lemma Realizes.eraseIdx (h : Realizes d s) (k : ℕ) :
    Realizes { d with handlers := d.handlers.eraseIdx k }
      { s with handlers := s.handlers.eraseIdx k } := by
  refine ⟨?_, h.answers, h.clerks, h.servers⟩
  dsimp only
  rw [h.handlers, List.eraseIdx_map]

lemma Implements.call (h : d.Implements) {clientId : ℕ} {method : Method}
    (hs : d.step (.call clientId method) = some d') : d'.Implements := by
  obtain ⟨ck, hck, rfl⟩ := Option.map_eq_some_iff.1 hs
  refine h.of_step rfl fun s hr => ⟨{ s with clerks := ck }, ⟨.call clientId method, ?_⟩,
    ⟨hr.handlers, hr.answers, rfl, hr.servers⟩, rfl, rfl⟩
  show (s.clerks.call clientId method).map _ = _
  rw [hr.clerks, hck]
  rfl

lemma Implements.request (h : d.Implements) {r : Request} {i : Fin n}
    (hs : d.step (.request r i) = some d') : d'.Implements := by
  obtain ⟨hcall, hs⟩ := Option.ite_none_right_eq_some.1 hs
  cases hs
  have hrep : (d.handle r i).replicas = d.replicas := by
    unfold handle
    split <;> rfl
  refine h.of_step hrep fun s hr => ⟨s.handle r (some i), ⟨.request r (some i), ?_⟩, ?_, ?_⟩
  · exact if_pos (hr.clerks ▸ hcall)
  · unfold handle System.handle
    rw [hr.servers i]
    cases (d.server i).fastPath r with
    | some reply => exact hr.respond i r reply
    | none =>
      refine ⟨?_, hr.answers, hr.clerks, hr.servers⟩
      dsimp only
      rw [hr.handlers, List.map_append]
      rfl
  · unfold System.handle
    split <;> exact ⟨rfl, rfl⟩

lemma Implements.wake (h : d.Implements) {k checkTerm : ℕ}
    (hs : d.step (.wake k checkTerm) = some d') : d'.Implements := by
  obtain ⟨hd, hk, hs⟩ := Option.bind_eq_some_iff.1 hs
  obtain ⟨startTerm, hterm, hs⟩ := Option.bind_eq_some_iff.1 hs
  obtain ⟨-, hs⟩ := Option.ite_none_right_eq_some.1 hs
  cases hs
  have hrep : (d.wake k hd startTerm checkTerm).replicas = d.replicas := by
    unfold Deployment.wake
    split <;> rfl
  refine h.of_step hrep fun s hr => ⟨s.wake k (toHandler hd) startTerm checkTerm
    (d.raft hd.server).currentTerm, ⟨.wake k checkTerm (d.raft hd.server).currentTerm, ?_⟩, ?_, ?_⟩
  · show s.handlers[k]?.bind _ = _
    rw [hr.getElem? hk, Option.bind_some]
    show hd.startTerm.map _ = _
    rw [hterm]
    rfl
  · have hserver : s.servers (toHandler hd).server = d.server hd.server := hr.servers hd.server
    have hrequest : (toHandler hd).request = hd.request := rfl
    unfold Deployment.wake System.wake
    rw [hserver, hrequest]
    by_cases hc : (d.server hd.server).check checkTerm hd.request startTerm
    · rw [if_pos hc, if_pos hc]
      exact hr
    · rw [if_neg hc, if_neg hc]
      exact (hr.eraseIdx k).respond hd.server hd.request _
  · unfold System.wake
    split <;> exact ⟨rfl, rfl⟩

lemma Implements.answer (h : d.Implements) {k : ℕ} (hs : d.step (.answer k) = some d') :
    d'.Implements := by
  obtain ⟨a, ha, hs⟩ := Option.bind_eq_some_iff.1 hs
  split at hs
  · rename_i hok
    obtain ⟨ck, hck, rfl⟩ := Option.map_eq_some_iff.1 hs
    refine h.of_step rfl fun s hr => ⟨{ s with clerks := ck }, ⟨.answer k, ?_⟩,
      ⟨hr.handlers, hr.answers, rfl, hr.servers⟩, rfl, rfl⟩
    show s.answers[k]?.bind _ = _
    rw [hr.answers, ha, Option.bind_some, if_pos hok, hr.clerks, hck]
    rfl
  · cases hs
    exact h

/-- A handler calls `Start`, and the leader that it may find there takes the command. -/
lemma Implements.start (h : d.Implements) {k : ℕ} (hs : d.step (.start k) = some d') :
    d'.Implements := by
  obtain ⟨s, hr, hreal, hb⟩ := h
  obtain ⟨hd, hk, hs⟩ := Option.bind_eq_some_iff.1 hs
  obtain ⟨hterm, hs⟩ := Option.ite_none_right_eq_some.1 hs
  obtain ⟨⟨rf, res, calls⟩, hstart, hs⟩ := Option.bind_eq_some_iff.1 hs
  obtain ⟨t, ht, rfl⟩ := Option.map_eq_some_iff.1 hs
  have hservers : ∀ i, s.servers (some i) = (t.hosts i).service := by
    obtain ⟨m, -, rfl⟩ := Option.map_eq_some_iff.1 ht
    exact hreal.servers
  have hsys : ∀ term isLeader, s.step (.start k term isLeader) =
      some (s.start k (toHandler hd) term isLeader) := by
    intro term isLeader
    have hnone : (toHandler hd).startTerm = none := hterm
    simp only [System.step, hreal.getElem? hk, Option.bind_some, hnone]
  have hok : d.replicas.Heeds Raft.HoldsHidden (.mesh (.start hd.server (KVServer.op hd.request))) := by
    rintro _ _ _ ⟨⟩
  obtain ⟨hl, rfl⟩ | ⟨hl, index, rfl⟩ := Raft.start_result hstart
  · have hb' : Backs t s := Replicas.Upholds.step faithful_kvraft hb hok ht fun i op he hl' => by
      cases he
      exact absurd hl' hl
    refine ⟨_, hr.step _ trivial (hsys 0 false), ?_, hb'.congr rfl fun _ => id⟩
    have hreal' : Realizes { d with replicas := t } s :=
      ⟨hreal.handlers, hreal.answers, hreal.clerks, hservers⟩
    exact (hreal'.eraseIdx k).respond hd.server hd.request _
  · -- the leader takes the command, and so does the system
    set term := (d.raft hd.server).currentTerm
    have hstarted : ∀ op ∈ s.started, op ∈ (s.start k (toHandler hd) term true).started :=
      fun op hop => List.mem_append_left _ hop
    have hb₁ : Backs d.replicas (s.start k (toHandler hd) term true) := hb.congr rfl hstarted
    have hb' : Backs t (s.start k (toHandler hd) term true) :=
      Replicas.Upholds.step faithful_kvraft hb₁ hok ht fun i op he _ => by
        cases he
        exact List.mem_append_right _ (List.mem_singleton_self _)
    refine ⟨_, hr.step _ trivial (hsys term true), ⟨?_, hreal.answers,
      hreal.clerks, hservers⟩, hb'⟩
    show s.handlers.set k _ = (d.handlers.set k _).map toHandler
    rw [hreal.handlers, List.map_set]
    rfl

lemma Implements.step {e : DeploymentEvent n} (h : d.Implements) (hok : d.Heeds Raft.HoldsHidden e)
    (hs : d.step e = some d') : d'.Implements := by
  cases e with
  | call clientId method => exact h.call hs
  | request r i => exact h.request hs
  | start k => exact h.start hs
  | wake k checkTerm => exact h.wake hs
  | answer k => exact h.answer hs
  | replicas e =>
    cases e with
    | mesh e =>
      cases e with
      | start i command => cases hs
      | _ =>
        obtain ⟨t, ht, rfl⟩ := Option.map_eq_some_iff.1 hs
        exact h.mesh hok ht (by rintro _ _ ⟨⟩)
    | host i e =>
      cases e with
      | crash =>
        dsimp only [Deployment.step] at hs
        rw [Option.map_eq_some_iff] at hs
        obtain ⟨t, ht, rfl⟩ := hs
        exact (h.host ht).2 rfl
      | _ =>
        dsimp only [Deployment.step] at hs
        rw [Option.map_eq_some_iff] at hs
        obtain ⟨t, ht, rfl⟩ := hs
        exact (h.host ht).1 (by rintro ⟨⟩)

/-- **The refinement**: the system can do what a deployment has done. -/
lemma reachable_implements (h : Reachable step (Heeds Raft.HoldsHidden) (init n) d) :
    d.Implements :=
  Reachable.invariant (P := Implements) implements_init (fun _ _ _ _ hi hok hs => hi.step hok hs) h

/-- What a deployment guarantees, where the replicas execute `log`. -/
structure Correct (d : Deployment n) (log : List Op) : Prop where
  /-- Every server is at a prefix of the log. -/
  prefixes : ∀ i, ∃ l rest, log = l ++ rest ∧ d.server i = replay l
  /-- The server that answers `OK` has executed the operation. -/
  applied : ∀ a ∈ d.answers, a.reply.err = .ok →
    KVServer.op a.request ∈ effects (log.take a.position)
  /-- All answers `OK` to one request are the same. -/
  sameAnswer : ∀ a ∈ d.answers, ∀ b ∈ d.answers, a.request = b.request → a.reply.err = .ok →
    b.reply.err = .ok → a.reply.value = b.reply.value
  /-- What the clerks return is what one map answers, in the order of the log. -/
  sequential : Linearization store d.clerks.history ((effects log).map Op.request)

/-- **kvraft is linearizable over this Raft**: any number of servers and clerks, any interleaving,
with messages lost, delayed and reordered, requests sent again, and crashes, in the runs that heed
`Raft.HoldsHidden`. -/
theorem linearizable_over_raft (h : Reachable step (Heeds Raft.HoldsHidden) (init n) d) :
    ∃ log, d.Correct log := by
  obtain ⟨s, hr, hreal, -⟩ := reachable_implements h
  have hi := System.reachable_inv hr
  refine ⟨s.log, fun i => ?_, ?_, ?_, ?_⟩
  · obtain ⟨-, heq⟩ := hi.servers (some i)
    rw [hreal.servers i] at heq
    exact ⟨_, _, (List.take_append_drop (d.server i).lastApplied s.log).symm, heq⟩
  · rw [← hreal.answers]
    exact fun a ha hok => hi.applied ha hok
  · rw [← hreal.answers]
    intro a ha b hb hab hoka hokb
    have hans := hi.answered_order ha hoka
    rw [hab] at hans
    exact hans.unique hi.linear.once (hi.answered_order hb hokb)
  · rw [← hreal.clerks]
    exact hi.linear

/-- The first call in the network and its reply are delivered, and the second call is lost. -/
def exchange : List (DeploymentEvent 3) :=
  [.replicas (.mesh (.deliver 0)), .replicas (.mesh (.deliver 1)), .replicas (.mesh (.drop 0))]

/-- A clerk appends at server `0`, which has been elected; then that server crashes, and the clerk
reads the key back at server `1`. -/
def failover : List (DeploymentEvent 3) :=
  List.flatten [
    [.call 0 (.append [97] [1]), .request ⟨0, 0, .append [97] [1]⟩ 0,
      .replicas (.mesh (.electionTimeout 0))], exchange, [.start 0], exchange,
    [.replicas (.host 0 .applyLog), .replicas (.host 0 .applyMsg), .wake 0 1, .answer 0,
      .replicas (.host 0 .crash), .call 0 (.get [97]), .request ⟨0, 1, .get [97]⟩ 1,
      .replicas (.mesh (.electionTimeout 1))], exchange, [.start 0], exchange,
    [.replicas (.host 1 .applyLog), .replicas (.host 1 .applyMsg), .replicas (.host 1 .applyMsg),
      .wake 0 2, .answer 1]]

theorem linearizable_over_raft_failover : ∃ (d : Deployment 3) (log : List Op),
    Reachable step (Heeds Raft.HoldsHidden) (init 3) d ∧ d.clerks.history =
      [.call ⟨0, 0, .append [97] [1]⟩, .ret ⟨0, 0, .append [97] [1]⟩ [],
        .call ⟨0, 1, .get [97]⟩, .ret ⟨0, 1, .get [97]⟩ [1]] ∧ d.Correct log := by
  have hrun : ((run (guarded step (Heeds Raft.HoldsHidden)) (init 3) failover).map fun d =>
      d.clerks.history) = some [.call ⟨0, 0, .append [97] [1]⟩, .ret ⟨0, 0, .append [97] [1]⟩ [],
        .call ⟨0, 1, .get [97]⟩, .ret ⟨0, 1, .get [97]⟩ [1]] := by
    decide +kernel
  obtain ⟨d, hd, hhist⟩ := Option.map_eq_some_iff.1 hrun
  have hr := Reachable.init.run_guarded hd
  obtain ⟨log, hlog⟩ := linearizable_over_raft hr
  exact ⟨d, log, hr, hhist, hlog⟩

end Deployment

end RaftLabs.KvRaft
