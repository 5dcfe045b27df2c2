import RaftLabs.Lib.Trace
import RaftLabs.Raft.Server

/-!
# The cluster

`n` servers and the RPCs in flight, as a transition system.  A request is delivered at most once,
in any order and after any delay, or lost; the same for its reply.  A server crashes and restarts
from its stable storage at any moment between two of its critical sections: the goroutines that
were waiting for replies are gone then, which `epoch` keeps apart.

Above each server runs the goroutine `applyLog`, which sends a batch of messages outside of the
lock, and a service, of which only the commands it has been delivered matter here: its snapshots
are these commands.  The history variable `delivered` holds everything that has ever gone through
the server's `applyCh`, with a snapshot counting as the commands it stands for.
-/

namespace RaftLabs

variable (n : ℕ) (C : Type)

/-- A server with the messages `applyLog` has still to send and the commands of the service. -/
structure Node where
  raft : Raft n C (List C)
  epoch : ℕ
  batch : List (ApplyMsg C (List C))
  applied : List C
  delivered : List (ℕ × C)

/-- An RPC in flight, with the incarnation of the calling server. -/
structure Packet where
  caller : Fin n
  callee : Fin n
  epoch : ℕ
  rpc : Rpc n C (List C)

structure Cluster where
  nodes : Fin n → Node n C
  net : List (Packet n C)

/-- What can happen next; a packet is named by its place in the list of those in flight. -/
inductive Event
  | electionTimeout (i : Fin n)
  | heartbeatTimeout (i : Fin n)
  | start (i : Fin n) (command : C)
  | snapshot (i : Fin n) (index : ℕ)
  | applyLog (i : Fin n)
  | applyMsg (i : Fin n)
  | crash (i : Fin n)
  | drop (k : ℕ)
  | deliver (k : ℕ)

variable {n C} [Inhabited C]

namespace Node

/-- The service takes a message off `applyCh`. -/
def take (node : Node n C) : ApplyMsg C (List C) → Node n C
  | .command c index =>
    { node with
      applied := if index = node.applied.length + 1 then node.applied ++ [c] else node.applied
      delivered := node.delivered ++ [(index, c)] }
  | .snapshot none _ _ => node
  | .snapshot (some data) _ index =>
    { node with
      applied := if index < node.applied.length then node.applied else data.state
      delivered := node.delivered ++ data.state.mapIdx fun k c => (k + 1, c) }

/-- The server restarts from its stable storage, and the service from the snapshot there. -/
def restart (node : Node n C) : Node n C :=
  { node with
    raft := Raft.make node.raft.me node.raft.persister
    epoch := node.epoch + 1
    batch := []
    applied := (node.raft.persister.snapshot.map Snapshot.state).getD [] }

end Node

namespace Cluster

/-- Every server has just been made with an empty stable storage. -/
def init : Cluster n C where
  nodes i := ⟨Raft.make i ⟨none, none⟩, 0, [], [], []⟩
  net := []

variable (s : Cluster n C)

/-- The Raft server `i`. -/
def raft (i : Fin n) : Raft n C (List C) := (s.nodes i).raft

def setNode (i : Fin n) (node : Node n C) : Cluster n C :=
  { s with nodes := Function.update s.nodes i node }

def setRaft (i : Fin n) (rf : Raft n C (List C)) : Cluster n C :=
  s.setNode i { s.nodes i with raft := rf }

/-- Server `i` makes these calls. -/
def send (i : Fin n) (calls : List (Fin n × Rpc n C (List C))) : Cluster n C :=
  { s with net := s.net ++ calls.map fun c => ⟨i, c.1, (s.nodes i).epoch, c.2⟩ }

/-- The callee of `p` answers it. -/
def answer (p : Packet n C) (reply : Rpc n C (List C)) : Cluster n C :=
  { s with net := s.net ++ [{ p with rpc := reply }] }

/-- A packet arrives: the callee executes a request, or a goroutine of the caller processes a
reply, if the caller has not crashed in the meantime. -/
def receive (p : Packet n C) : Option (Cluster n C) :=
  match p.rpc with
  | .requestVote args =>
    ((s.raft p.callee).requestVote args).map fun r =>
      (s.setRaft p.callee r.1).answer p (.requestVoteReply args r.2 r.1.logical)
  | .applyEntries args =>
    ((s.raft p.callee).applyEntries args).map fun r =>
      (s.setRaft p.callee r.1).answer p (.applyEntriesReply args r.2 r.1.logical)
  | .installSnapshot args =>
    let r := (s.raft p.callee).installSnapshot args
    some ((s.setRaft p.callee r.1).answer p (.installSnapshotReply args r.2 r.1.logical))
  | .requestVoteReply args reply _ =>
    if p.epoch = (s.nodes p.caller).epoch then
      some (s.setRaft p.caller ((s.raft p.caller).requestVoteReply args reply))
    else some s
  | .applyEntriesReply args reply _ =>
    if p.epoch = (s.nodes p.caller).epoch then
      ((s.raft p.caller).sendApplyEntriesTo p.callee args reply).map (s.setRaft p.caller)
    else some s
  | .installSnapshotReply args reply _ =>
    if p.epoch = (s.nodes p.caller).epoch then
      some (s.setRaft p.caller ((s.raft p.caller).sendInstallSnapshotTo p.callee args reply))
    else some s

/-- One step of the cluster. -/
def step : Event n C → Option (Cluster n C)
  | .electionTimeout i =>
    (s.raft i).electionTimeout.map fun r => (s.setRaft i r.1).send i r.2
  | .heartbeatTimeout i =>
    (s.raft i).heartbeatTimeout.map fun calls => s.send i calls
  | .start i command =>
    ((s.raft i).start command).map fun r => (s.setRaft i r.1).send i r.2.2
  | .snapshot i index =>
    -- an index the service has been delivered
    if 1 ≤ index ∧ index ≤ (s.nodes i).applied.length then
      some (s.setRaft i ((s.raft i).callSnapshot index
        ⟨index, (s.nodes i).applied.take index, []⟩))
    else none
  | .applyLog i =>
    -- the goroutine has sent its last batch
    if (s.nodes i).batch.isEmpty then
      (s.raft i).applyLog.map fun r =>
        s.setNode i { s.nodes i with raft := r.1, batch := r.2 }
    else none
  | .applyMsg i =>
    match (s.nodes i).batch with
    | [] => none
    | msg :: batch => some (s.setNode i ({ s.nodes i with batch := batch }.take msg))
  | .crash i => some (s.setNode i (s.nodes i).restart)
  | .drop k => if k < s.net.length then some { s with net := s.net.eraseIdx k } else none
  | .deliver k => s.net[k]?.bind fun p => ({ s with net := s.net.eraseIdx k }).receive p

end Cluster

end RaftLabs
