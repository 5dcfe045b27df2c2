import RaftLabs.KvRaft.Server
import RaftLabs.Lib.Trace

/-!
# kvraft as a system

The clerks, the servers with their waiting handlers, and the log that Raft gives to all of them.
What is assumed of Raft is what the services are written against: there is one log without gaps, a
command enters it some time after a server that took itself for the leader has handed it to `Start`,
once, several times or never, every server is given the log in order, and the snapshots it is handed
in between or after a crash are snapshots that some server has made.  Terms and leadership are left
open: `Start` and `GetState` may answer anything at any time.

A request may reach any server any number of times as soon as its call has been made, even after the
call has returned; the same holds of the answers.
-/

namespace RaftLabs.KvRaft

open Lib

variable (ι : Type)

/-- A handler that has been called: before `Start`, or waiting since the term in which `Start` has
taken its command. -/
structure Handler where
  server : ι
  request : Request
  startTerm : Option ℕ

/-- An answer on its way to a clerk.  The position is the server's `LastApplied` at that moment, a
history variable. -/
structure Answer where
  request : Request
  reply : Reply
  position : ℕ

structure System where
  log : List Op
  started : List Op
  servers : ι → KVServer
  snapshots : List (ℕ × Image)
  handlers : List (Handler ι)
  answers : List Answer
  clerks : Clerks

/-- What can happen next; handlers, commands, snapshots and answers are named by their place. -/
inductive Event
  | call (clientId : ℕ) (method : Method)
  | request (r : Request) (i : ι)
  | start (k term : ℕ) (isLeader : Bool)
  | wake (k checkTerm currentTerm : ℕ)
  | commit (k : ℕ)
  | apply (i : ι)
  | makeSnapshot (i : ι)
  | applySnapshot (i : ι) (k : ℕ)
  | crash (i : ι) (k : ℕ)
  | answer (k : ℕ)

variable {ι} [DecidableEq ι]

namespace System

def init : System ι := ⟨[], [], fun _ => KVServer.init, [], [], [], Clerks.init⟩

variable (s : System ι)

def setServer (i : ι) (kv : KVServer) : System ι :=
  { s with servers := Function.update s.servers i kv }

/-- Server `i` answers a request. -/
def respond (i : ι) (r : Request) (reply : Reply) : System ι :=
  { s with answers := s.answers ++ [⟨r, reply, (s.servers i).lastApplied⟩] }

/-- A request arrives: the part of the handler before `Start`. -/
def handle (r : Request) (i : ι) : System ι :=
  match (s.servers i).fastPath r with
  | some reply => s.respond i r reply
  | none => { s with handlers := s.handlers ++ [⟨i, r, none⟩] }

/-- A handler calls `Start`. -/
def start (k : ℕ) (h : Handler ι) (term : ℕ) (isLeader : Bool) : System ι :=
  if isLeader then
    { s with
      started := s.started ++ [KVServer.op h.request]
      handlers := s.handlers.set k { h with startTerm := some term } }
  else { s with handlers := s.handlers.eraseIdx k }.respond h.server h.request
      { err := .errWrongLeader }

/-- A waiting handler wakes up: `Check` sends it back to sleep, or it answers. -/
def wake (k : ℕ) (h : Handler ι) (startTerm checkTerm currentTerm : ℕ) : System ι :=
  if (s.servers h.server).check checkTerm h.request startTerm then s
  else { s with handlers := s.handlers.eraseIdx k }.respond h.server h.request
      ((s.servers h.server).finish currentTerm h.request startTerm)

/-- One step. -/
def step : Event ι → Option (System ι)
  | .call clientId method => (s.clerks.call clientId method).map fun ck => { s with clerks := ck }
  | .request r i => if Action.call r ∈ s.clerks.history then some (s.handle r i) else none
  | .start k term isLeader =>
    s.handlers[k]?.bind fun h =>
      match h.startTerm with
      | none => some (s.start k h term isLeader)
      | some _ => none
  | .wake k checkTerm currentTerm =>
    s.handlers[k]?.bind fun h =>
      h.startTerm.map fun startTerm => s.wake k h startTerm checkTerm currentTerm
  | .commit k => s.started[k]?.map fun op => { s with log := s.log ++ [op] }
  | .apply i =>
    s.log[(s.servers i).lastApplied]?.bind fun op =>
      ((s.servers i).execOp op ((s.servers i).lastApplied + 1)).map (s.setServer i)
  | .makeSnapshot i => some { s with snapshots := s.snapshots ++ [(s.servers i).makeSnapshot] }
  | .applySnapshot i k =>
    s.snapshots[k]?.bind fun d => ((s.servers i).applySnapshot d.1 d).map (s.setServer i)
  | .crash i k =>
    -- without a snapshot at that place the server starts from nothing
    some ({ s with handlers := s.handlers.filter fun h => h.server ≠ i }.setServer i
      (KVServer.init.restoreState s.snapshots[k]?))
  | .answer k =>
    s.answers[k]?.bind fun a =>
      if a.reply.err = .ok then
        (s.clerks.ret a.request a.reply.value).map fun ck => { s with clerks := ck }
      else some s

end System

/-! ### The meaning of the log -/

/-- The state of a server that has executed this log. -/
def replay (log : List Op) : KVServer := log.foldl KVServer.exec KVServer.init

/-- The commands of the log that were executed when their turn came, and not skipped. -/
def effects (log : List Op) : List Op :=
  (log.foldl (fun p op => (p.1.exec op, if p.1.Done op then p.2 else p.2 ++ [op]))
    (KVServer.init, ([] : List Op))).2

/-- The request that a command was made from. -/
def Op.request (op : Op) : Request :=
  ⟨op.clientId, op.callId,
    if op.getValid then .get op.key
    else if op.putValid then .put op.key op.value
    else .append op.key op.value⟩

end RaftLabs.KvRaft
