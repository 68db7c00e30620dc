import Cube.Lib.Interleaving
import Cube.Fndnet.Packet

/-! # The server and its notifications

`OnAccept`, `OnDisconnect` and `OnReceiveData` of `WnTCPServer.cpp` with the threads they start.
Data is notified by the io thread that has received it, with the mutex of the clients held shared;
an accepted or disconnected client is notified by a thread of its own, which is started with that
mutex held. A section that holds a mutex alone is one step.
-/

namespace Cube.Fndnet

variable {ι : Type}

/-- A connection. The id of a client is its address. -/
abbrev ConnectionRef := Nat

/-- A call of `IFndNetServerNotify`. -/
inductive Notification where
  | onAccept (ullClientID : ConnectionRef)
  | onRawData (ullClientID : ConnectionRef) (pbData : List UInt8)
  | onClientDisconnect (ullClientID : ConnectionRef)
  deriving DecidableEq, Repr

/-- A thread that was started: `OnAcceptThread` or `OnDisconnectThread`. -/
inductive NotifyThread where
  | onAccept (connection : ConnectionRef)
  | onDisconnect (connection : ConnectionRef)
  deriving DecidableEq, Repr

def NotifyThread.notification : NotifyThread → Notification
  | .onAccept connection => .onAccept connection
  | .onDisconnect connection => .onClientDisconnect connection

/-- The server: the clients, whether there is an object to notify, and who holds a mutex shared.
The threads that were started have not come to their call yet; the connections accepted so far are
numbered, and some are read from; the calls of the notified object are listed in order. -/
structure TCPServer (ι : Type) where
  blHB : Bool
  clientsMap : List ConnectionRef
  poNotify : Bool
  sharedMutex : List ι
  notifyMutex : List ι
  started : List NotifyThread
  accepted : Nat
  reading : List ConnectionRef
  calls : List Notification
  deriving DecidableEq

/-- The calls: of the acceptor, of the io service for a packet or an error of a connection, of a
started thread, and of the owner of the server. -/
inductive ServerCall where
  | accept
  | receive (connection : ConnectionRef) (packet : WnPacket)
  | disconnect (connection : ConnectionRef)
  | run (started : NotifyThread)
  | closeSocket
  | clearNotifyObj
  deriving DecidableEq

/-- Where a call stands. -/
inductive ServerPoint where
  | onAccept
  | beginRead (connection : ConnectionRef)
  | onReceiveData (connection : ConnectionRef) (packet : WnPacket)
  | found (connection : ConnectionRef) (packet : WnPacket)
  | onRawData
  | unlock
  | onDisconnect (connection : ConnectionRef)
  | run (started : NotifyThread)
  | notified
  | closeSocket
  | clearNotifyObj
  | returned
  deriving DecidableEq

namespace TCPServer

/-- A server that listens. -/
def listening (blHB : Bool) : TCPServer ι := ⟨blHB, [], true, [], [], [], 0, [], []⟩

variable (server : TCPServer ι)

/-- The data that is notified of a packet. -/
def notifiedData (packet : WnPacket) : Option (List UInt8) :=
  if server.blHB then
    if !packet.isHeartBeatPacket then some packet.getBodyData else none
  else some packet.data

/-- A connection is read from once its `OnAccept` has returned. -/
def enter : ServerCall → TCPServer ι × ServerPoint
  | .accept => (server, .onAccept)
  | .receive connection packet =>
      (server, if connection ∈ server.reading then .onReceiveData connection packet else .returned)
  | .disconnect connection =>
      (server, if connection < server.accepted then .onDisconnect connection else .returned)
  | .run started => (server, if started ∈ server.started then .run started else .returned)
  | .closeSocket => (server, .closeSocket)
  | .clearNotifyObj => (server, .clearNotifyObj)

variable [DecidableEq ι] (thread : ι)

/-- The call of the notified object, with its mutex held shared. -/
def notify (notification : Notification) : TCPServer ι :=
  { server with
    notifyMutex := thread :: server.notifyMutex
    calls := server.calls ++ [notification] }

/-- The section of `OnDisconnect`. -/
def remove (connection : ConnectionRef) : TCPServer ι :=
  if connection ∈ server.clientsMap then
    { server with
      clientsMap := server.clientsMap.erase connection
      started := server.started ++ [.onDisconnect connection] }
  else server

/-- One step of a call. A thread waits for a mutex that others hold shared. -/
def advance : ServerPoint → TCPServer ι × Option ServerPoint
  | .onAccept =>
      if server.sharedMutex ≠ [] then (server, some .onAccept)
      else
        ({ server with
          clientsMap := server.clientsMap ++ [server.accepted]
          started := server.started ++ [.onAccept server.accepted]
          accepted := server.accepted + 1 }, some (.beginRead server.accepted))
  | .beginRead connection => ({ server with reading := server.reading ++ [connection] }, none)
  | .onReceiveData connection packet =>
      ({ server with sharedMutex := thread :: server.sharedMutex },
        some (if connection ∈ server.clientsMap then .found connection packet else .unlock))
  | .found connection packet =>
      match server.notifiedData packet with
      | none => (server, some .unlock)
      | some data =>
          if server.poNotify then
            (server.notify thread (.onRawData connection data), some .onRawData)
          else (server, some .unlock)
  | .onRawData => ({ server with notifyMutex := server.notifyMutex.erase thread }, some .unlock)
  | .unlock => ({ server with sharedMutex := server.sharedMutex.erase thread }, none)
  | .onDisconnect connection =>
      if server.sharedMutex ≠ [] then (server, some (.onDisconnect connection))
      else (server.remove connection, none)
  | .run started =>
      if started ∈ server.started then
        let server := { server with started := server.started.erase started }
        if server.poNotify then (server.notify thread started.notification, some .notified)
        else (server, none)
      else (server, none)
  | .notified => ({ server with notifyMutex := server.notifyMutex.erase thread }, none)
  | .closeSocket =>
      if server.sharedMutex ≠ [] then (server, some .closeSocket)
      else ({ server with clientsMap := [] }, none)
  | .clearNotifyObj =>
      if server.notifyMutex ≠ [] then (server, some .clearNotifyObj)
      else ({ server with poNotify := false }, none)
  | .returned => (server, none)

/-- The io threads, the started threads and the owner's. -/
def program : Interleaving.Program ι (TCPServer ι) ServerCall ServerPoint Unit where
  enter _ := enter
  advance thread server point _ := server.advance thread point

/-- What happens next at a server. -/
abbrev Choice (ι : Type) := Interleaving.Choice ι ServerCall Unit

/-- The server and the threads at it. -/
abbrev Threads (ι : Type) := Interleaving.Threads ι (TCPServer ι) ServerPoint

end TCPServer

end Cube.Fndnet
