import RaftLabs.Clerk
import RaftLabs.Lib.Trace

/-!
# kvsrv

`kvsrv/server.go` and `kvsrv/client.go`: one server, and clerks that repeat a call until an answer
gets through.  The server remembers the result of a `Put` or `Append` under the number of the call,
and the clerk deletes the entry with `Succeed`, which it repeats too, before it returns.  A `Get` is
not remembered.

A `Call` of labrpc executes its request once or not at all.  It returns `false` when the request or
the reply is lost, and no request is executed after its `Call` has returned.  A clerk makes one
`Call` at a time, so everything the network holds of a clerk is part of its place in the code.
-/

namespace RaftLabs.KvSrv

open Lib

/-! ### The server -/

structure KVServer where
  pairs : GoString → Option GoString
  results : GoString → Option GoString

/-- `getKey`: the two numbers with a comma between them. -/
def getKey (clientID callID : ℤ) : GoString :=
  Decimal.formatInt clientID ++ 44 :: Decimal.formatInt callID

namespace KVServer

/-- `StartKVServer`. -/
def init : KVServer := ⟨fun _ => none, fun _ => none⟩

variable (kv : KVServer)

/-- `Get`. -/
def get (key : GoString) : GoString := (kv.pairs key).getD []

/-- What `Put` and `Append` share: look the call up, execute it, and store the result. -/
def once (clientID callID : ℤ)
    (execute : (GoString → Option GoString) → (GoString → Option GoString) × GoString) :
    KVServer × GoString :=
  let key := getKey clientID callID
  match kv.results key with
  | some v => (kv, v)
  | none =>
    let r := execute kv.pairs
    (⟨r.1, Function.update kv.results key (some r.2)⟩, r.2)

/-- `Put`. -/
def put (clientID callID : ℤ) (key value : GoString) : KVServer × GoString :=
  kv.once clientID callID fun pairs => (Function.update pairs key (some value), [])

/-- `Append` returns the old value. -/
def append (clientID callID : ℤ) (key value : GoString) : KVServer × GoString :=
  kv.once clientID callID fun pairs =>
    let old := (pairs key).getD []
    (Function.update pairs key (some (old ++ value)), old)

/-- `Succeed`. -/
def succeed (clientID callID : ℤ) : KVServer :=
  { kv with results := Function.update kv.results (getKey clientID callID) none }

/-- The handler of a request. -/
def handle (r : Request) : KVServer × GoString :=
  match r.method with
  | .get key => (kv, kv.get key)
  | .put key value => kv.put r.clientId r.callId key value
  | .append key value => kv.append r.clientId r.callId key value

end KVServer

/-! ### The clerks and the network -/

/-- `PutAppend` is called, not `Get`. -/
def Updates (r : Request) : Prop :=
  match r.method with
  | .get _ => False
  | _ => True

instance : DecidablePred Updates := fun r => by
  unfold Updates
  split <;> infer_instance

/-- Where a clerk is in the code of the call that is open. -/
inductive Place
  /-- At the top of the loop. -/
  | loop
  /-- Inside `Call`, with the reply once the request has been executed. -/
  | inCall (reply : Option GoString)
  /-- At the top of the loop for `Succeed`. -/
  | succeed (value : GoString)
  /-- Inside the `Call` of `Succeed`, which may have been executed. -/
  | inSucceed (value : GoString) (executed : Bool)
  deriving DecidableEq

/-- The server, the clerks by their `ClientID`, and as a history variable the requests that have
changed `pairs`, in order. -/
structure System where
  server : KVServer
  clerks : Clerks
  place : ℕ → Place
  performed : List Request

/-- What can happen next, at one clerk. -/
inductive Event
  | call (clientId : ℕ) (method : Method)
  | send (clientId : ℕ)
  | execute (clientId : ℕ)
  | fail (clientId : ℕ)
  | deliver (clientId : ℕ)

/-- The key of a request in `results`. -/
def keyOf (r : Request) : GoString := getKey r.clientId r.callId

namespace System

def init : System := ⟨KVServer.init, Clerks.init, fun _ => .loop, []⟩

variable (s : System)

/-- The call of a clerk that is open. -/
def calling (c : ℕ) : Option Request := (s.clerks.clerk c).calling

def goto (c : ℕ) (p : Place) : System := { s with place := Function.update s.place c p }

/-- The server executes the request of the open call. -/
def execute (c : ℕ) (r : Request) : System :=
  let v := s.server.handle r
  { s with
    server := v.1
    place := Function.update s.place c (.inCall (some v.2))
    performed :=
      if Updates r ∧ s.server.results (keyOf r) = none then s.performed ++ [r] else s.performed }

/-- The open call returns. -/
def ret (r : Request) (value : GoString) : Option System :=
  (s.clerks.ret r value).map fun ck => { s with clerks := ck }

/-- One step. -/
def step (s : System) : Event → Option System
  | .call c method =>
    (s.clerks.call c method).map fun ck => { s with clerks := ck }.goto c .loop
  | .send c =>
    (s.calling c).bind fun _ =>
      match s.place c with
      | .loop => some (s.goto c (.inCall none))
      | .succeed v => some (s.goto c (.inSucceed v false))
      | _ => none
  | .execute c =>
    (s.calling c).bind fun r =>
      match s.place c with
      | .inCall none => some (s.execute c r)
      | .inSucceed v false =>
        some ({ s with server := s.server.succeed r.clientId r.callId }.goto c (.inSucceed v true))
      | _ => none
  | .fail c =>
    (s.calling c).bind fun _ =>
      match s.place c with
      | .inCall _ => some (s.goto c .loop)
      | .inSucceed v _ => some (s.goto c (.succeed v))
      | _ => none
  | .deliver c =>
    (s.calling c).bind fun r =>
      match s.place c with
      | .inCall (some v) => if Updates r then some (s.goto c (.succeed v)) else s.ret r v
      | .inSucceed v true => s.ret r v
      | _ => none

end System

/-- **The purpose of the service**: one map.  `Append` answers with the value before it. -/
def sequentialMap : Object (GoString → Option GoString) Request GoString where
  init := fun _ => none
  step m r :=
    match r.method with
    | .get key => (m, (m key).getD [])
    | .put key value => (Function.update m key (some value), [])
    | .append key value =>
      (Function.update m key (some ((m key).getD [] ++ value)), (m key).getD [])

/-! ### What the functions compute -/

/-- **Calls do not share keys.** -/
lemma getKey_injective {c k c' k' : ℤ} (h : getKey c k = getKey c' k') : c = c' ∧ k = k' :=
  Decimal.formatInt_separated (by decide) (by decide) h

lemma keyOf_injective {r r' : Request} (h : keyOf r = keyOf r') :
    r.clientId = r'.clientId ∧ r.callId = r'.callId := by
  obtain ⟨hc, hk⟩ := getKey_injective h
  exact ⟨by exact_mod_cast hc, by exact_mod_cast hk⟩

lemma reads_of_not_updates {r : Request} (h : ¬ Updates r) : sequentialMap.Reads r := by
  intro m
  rcases r with ⟨c, k, _ | _ | _⟩
  · rfl
  · exact absurd trivial h
  · exact absurd trivial h

lemma step_append {r : Request} {key value : GoString} (h : r.method = .append key value)
    (m : GoString → Option GoString) : (sequentialMap.step m r).2 = (m key).getD [] := by
  simp only [sequentialMap, h]

namespace KVServer

variable {kv : KVServer} {r : Request}

lemma handle_get (h : ¬ Updates r) : kv.handle r = (kv, (sequentialMap.step kv.pairs r).2) := by
  rcases r with ⟨c, k, _ | _ | _⟩
  · rfl
  · exact absurd trivial h
  · exact absurd trivial h

/-- An update that is executed for the first time. -/
lemma handle_new (h : Updates r) (hnew : kv.results (keyOf r) = none) :
    kv.handle r = (⟨(sequentialMap.step kv.pairs r).1,
      Function.update kv.results (keyOf r) (some (sequentialMap.step kv.pairs r).2)⟩,
      (sequentialMap.step kv.pairs r).2) := by
  rcases r with ⟨c, k, _ | _ | _⟩
  · exact absurd h id
  · dsimp only [handle, put, once]
    rw [show getKey c k = keyOf ⟨c, k, _⟩ from rfl, hnew]
    rfl
  · dsimp only [handle, append, once]
    rw [show getKey c k = keyOf ⟨c, k, _⟩ from rfl, hnew]
    rfl

/-- An update that the server remembers. -/
lemma handle_old (h : Updates r) {v : GoString} (hold : kv.results (keyOf r) = some v) :
    kv.handle r = (kv, v) := by
  rcases r with ⟨c, k, _ | _ | _⟩
  · exact absurd h id
  · dsimp only [handle, put, once]
    rw [show getKey c k = keyOf ⟨c, k, _⟩ from rfl, hold]
  · dsimp only [handle, append, once]
    rw [show getKey c k = keyOf ⟨c, k, _⟩ from rfl, hold]

end KVServer

end RaftLabs.KvSrv
