import Mathlib.Data.List.AList
import Cube.Lib.Interleaving

/-! # Requests of the TCP client

`TcpClient::request` registers an asynchronous request under a new id, sends, and waits on the
monitor of the request until an answer is handled or the time is up. A dispatcher takes the
request of an answer out of the map, decodes the answer into the codec of the request, and
finishes one task of its monitor.
-/

namespace Cube.Eco.Net

/-- Every call of `request` has a codec of its own, which goes by the number of the call. -/
abbrev CodecId := Nat

abbrev RequestId := UInt32

/-- A pointer to an asynchronous request. -/
abbrev AsyncRef := Nat

structure AsyncRequest where
  rspCodec : CodecId
  taskCount : Int := 1
  deriving DecidableEq, Repr

/-- What happens to requests. -/
inductive RequestEvent where
  /-- A new request was put in the map. -/
  | put (async : AsyncRef) (reqId : RequestId)
  /-- It was taken out of the map. -/
  | removed (async : AsyncRef)
  /-- An answer with this request id was decoded into the codec, or failed to be. -/
  | decoded (codec : CodecId) (reqId : RequestId) (ok : Bool)
  /-- The call with this codec and request id returned, successfully or not. -/
  | returned (codec : CodecId) (reqId : RequestId) (ok : Bool)
  deriving DecidableEq

/-- The part of the client that requests share, the asynchronous requests in memory, how many
calls of `request` were made, and what happened so far. -/
structure TcpClient where
  requestId : RequestId
  asyncManager : AList fun _ : RequestId => AsyncRef
  asyncs : AsyncRef → AsyncRequest
  fresh : AsyncRef
  calls : CodecId
  log : List RequestEvent

namespace TcpClient

def start : TcpClient := ⟨0, ∅, fun _ => ⟨0, 1⟩, 0, 0, []⟩

section Operations

variable (client : TcpClient)

def record (event : RequestEvent) : TcpClient := { client with log := client.log ++ [event] }

@[simp, grind =] theorem record_asyncManager (event : RequestEvent) :
    (client.record event).asyncManager = client.asyncManager := rfl

@[simp, grind =] theorem record_asyncs (event : RequestEvent) :
    (client.record event).asyncs = client.asyncs := rfl

@[simp, grind =] theorem record_fresh (event : RequestEvent) :
    (client.record event).fresh = client.fresh := rfl

@[simp, grind =] theorem record_calls (event : RequestEvent) :
    (client.record event).calls = client.calls := rfl

@[simp, grind =] theorem record_log (event : RequestEvent) :
    (client.record event).log = client.log ++ [event] := rfl

/-- `post_async`: a request id that is in the map shares the request that is there. -/
def postAsync (reqId : RequestId) (rspCodec : CodecId) : AsyncRef × TcpClient :=
  match client.asyncManager.lookup reqId with
  | some async => (async, client)
  | none =>
      (client.fresh,
        { client with
          asyncManager := client.asyncManager.insert reqId client.fresh
          asyncs := Function.update client.asyncs client.fresh ⟨rspCodec, 1⟩
          fresh := client.fresh + 1 }.record (.put client.fresh reqId))

def popAsync (reqId : RequestId) : Option AsyncRef × TcpClient :=
  match client.asyncManager.lookup reqId with
  | some async =>
      (some async,
        { client with asyncManager := client.asyncManager.erase reqId }.record
          (.removed async))
  | none => (none, client)

def taskCount (async : AsyncRef) : Int := (client.asyncs async).taskCount

/-- `Monitor::finish_one` takes a task off. Whom it wakes up makes no difference, because a
thread may wake up at any time. -/
def finishOne (async : AsyncRef) : TcpClient :=
  { client with
    asyncs := Function.update client.asyncs async
      { client.asyncs async with taskCount := client.taskCount async - 1 } }

/-- The codec of an asynchronous request, wherever its owner is by then, gets the answer. -/
def decode (async : AsyncRef) (reqId : RequestId) (decodes : Bool) : TcpClient :=
  client.record (.decoded (client.asyncs async).rspCodec reqId decodes)

end Operations

/-- A request, or an answer that the dispatcher handles: `decodes` says whether the codec can
make sense of it. -/
inductive Call where
  | request
  | answer (reqId : RequestId) (decodes : Bool)
  deriving DecidableEq

/-- Where a thread stands. A request: before the two halves of `++m_request_id`, before
`post_async`, before and in the wait, before the `pop_async` of a wait that failed. An answer:
before `pop_async`, before the decoding, before `finish_one`. -/
inductive Operation where
  | increment (codec : CodecId)
  | read (codec : CodecId)
  | post (codec : CodecId) (reqId : RequestId)
  | wait (codec : CodecId) (reqId : RequestId) (async : AsyncRef)
  | sleep (codec : CodecId) (reqId : RequestId) (async : AsyncRef)
  | popFailed (codec : CodecId) (reqId : RequestId) (async : AsyncRef)
  | popAnswered (reqId : RequestId) (decodes : Bool)
  | decode (async : AsyncRef) (reqId : RequestId) (decodes : Bool)
  | finish (async : AsyncRef)
  deriving DecidableEq

/-- A thread goes on, waking up if it sleeps, or its time is up. -/
inductive Input where
  | goesOn
  | timesOut
  deriving DecidableEq

section Program

variable (client : TcpClient)

/-- `request` returns once the wait was successful, and takes its entry out otherwise. -/
def waited (codec : CodecId) (reqId : RequestId) (async : AsyncRef) (ok : Bool) :
    TcpClient × Option Operation :=
  if ok then (client.record (.returned codec reqId true), none)
  else (client, some (.popFailed codec reqId async))

def enter : Call → TcpClient × Operation
  | .request => ({ client with calls := client.calls + 1 }, .increment client.calls)
  | .answer reqId decodes => (client, .popAnswered reqId decodes)

/-- One atomic step. A wait that wakes up succeeds if no task is left, whoever woke it up. -/
def advance (input : Input) : Operation → TcpClient × Option Operation
  | .increment codec => ({ client with requestId := client.requestId + 1 }, some (.read codec))
  | .read codec => (client, some (.post codec client.requestId))
  | .post codec reqId =>
      let (async, client) := client.postAsync reqId codec
      (client, some (.wait codec reqId async))
  | .wait codec reqId async =>
      if 0 < client.taskCount async then (client, some (.sleep codec reqId async))
      else client.waited codec reqId async (client.taskCount async == 0)
  | .sleep codec reqId async =>
      match input with
      | .timesOut => client.waited codec reqId async false
      | .goesOn => client.waited codec reqId async (client.taskCount async == 0)
  | .popFailed codec reqId _ =>
      ((client.popAsync reqId).2.record (.returned codec reqId false), none)
  | .popAnswered reqId decodes =>
      match client.popAsync reqId with
      | (some async, client) => (client, some (.decode async reqId decodes))
      | (none, client) => (client, none)
  | .decode async reqId decodes =>
      (client.decode async reqId decodes, some (.finish async))
  | .finish async => (client.finishOne async, none)

end Program

/-- Any number of threads that make requests and handle answers. -/
def program (ι : Type) : Interleaving.Program ι TcpClient Call Operation Input where
  enter _ client call := client.enter call
  advance _ client operation input := client.advance input operation

abbrev Choice (ι : Type) := Interleaving.Choice ι Call Input
abbrev Threads (ι : Type) := Interleaving.Threads ι TcpClient Operation

end TcpClient

end Cube.Eco.Net
