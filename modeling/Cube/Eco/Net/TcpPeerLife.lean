import Cube.Eco.Net.TcpState
import Cube.Lib.Run

/-! # The life of a peer

`TcpPeer::Impl` as a machine: what it does when one of its reads or writes completes, when a
connect completes, when something is sent and when a tick cleans it. Completions of reads
and writes that were in flight arrive in any order, with or without an error, also after the
peer has been closed. What a handler does inside `on_connect` or `on_read` (it sends, marks
the peer, closes) touches nothing that the peer does right after it, the start of the next
read: these calls are events of their own.
-/

namespace Cube.Eco.Net

/-- What `TcpPeerHandler` says of its peers. -/
structure TcpPeerHandler where
  client : Bool
  websocket : Bool
  deriving DecidableEq

namespace TcpPeer

/-- A read in flight: it completes in `on_read_head` or in `on_read_data`. -/
inductive Reading where
  | head
  | data
  deriving DecidableEq

/-- `TcpPeer::Impl`: the state, what is in flight at the connector, the messages handed to
`on_read`, and how often `on_close` was called for the present connection. -/
structure Impl where
  state : TcpState
  reading : List Reading
  writing : Nat
  messages : Nat
  notices : Nat
  deriving DecidableEq

/-- How the read of a head ends: `decode_data_size` rejects it or finds the size of the data. -/
inductive HeadRead where
  | failed
  | rejected
  | decoded (dataSize : UInt32)
  deriving DecidableEq

/-- The data read as a websocket hand-shake. -/
inductive ShakeHand where
  | foreign
  | invalid
  | valid
  deriving DecidableEq

/-- How the read of data ends. -/
inductive DataRead where
  | failed
  | arrived (shakeHand : ShakeHand)
  deriving DecidableEq

namespace Impl

/-- `prepare`. -/
def made : Impl where
  state := TcpState.init.setSelfLive false
  reading := []
  writing := 0
  messages := 0
  notices := 0

/-- `set_connected`: a connection begins. -/
def setConnected (impl : Impl) : Impl :=
  { impl with state := impl.state.setConnected.setPeerLive true, notices := 0 }

def asyncRecv (impl : Impl) : Impl := { impl with reading := .head :: impl.reading }

def asyncRecvByClient (impl : Impl) : Impl :=
  asyncRecv { impl with state := impl.state.setReady }

def asyncRecvByServer (impl : Impl) : Impl :=
  asyncRecv { impl with state := impl.state.setReady }

def asyncRecvShakehand (impl : Impl) : Impl :=
  { impl with state := impl.state.setWebsocket, reading := .data :: impl.reading }

def asyncSend (impl : Impl) : Impl :=
  { impl with state := impl.state.setSelfLive true, writing := impl.writing + 1 }

def sendWebsocketShakehand (impl : Impl) : Impl := impl.asyncSend

def asyncSendHeartbeat (impl : Impl) : Impl := if impl.state.ready then impl.asyncSend else impl

def asyncSendLiveHeartbeat (impl : Impl) : Impl :=
  if !impl.state.ready then impl
  else if impl.state.selfLive then { impl with state := impl.state.setSelfLive false }
  else impl.asyncSendHeartbeat

def close (impl : Impl) : Impl :=
  if impl.state.closed then impl else { impl with state := impl.state.setClosed }

def closeAndNotify (impl : Impl) : Impl :=
  { impl.close with notices := impl.close.notices + 1 }

def onConnect (websocket : Bool) (isConnected : Bool) (impl : Impl) : Impl :=
  if !isConnected then impl
  else
    let impl := impl.setConnected
    if websocket then
      let impl := { impl with state := impl.state.setWebsocket }
      impl.sendWebsocketShakehand.asyncRecvShakehand
    else impl.asyncRecvByClient

def onReadHead (read : HeadRead) (impl : Impl) : Impl :=
  match read with
  | .failed => impl.closeAndNotify
  | .rejected => impl.closeAndNotify
  | .decoded dataSize =>
      let impl := { impl with state := impl.state.setPeerLive true }
      if dataSize = 0 then asyncRecv { impl with messages := impl.messages + 1 }
      else { impl with reading := .data :: impl.reading }

def handleWebsocketShakehandReq (shakeHand : ShakeHand) (impl : Impl) : Impl :=
  match shakeHand with
  | .foreign => impl
  | .invalid => impl.closeAndNotify
  | .valid => impl.asyncSend.asyncRecvByServer

def handleWebsocketShakehandRsp (shakeHand : ShakeHand) (impl : Impl) : Impl :=
  match shakeHand with
  | .foreign => impl
  | .invalid => impl.closeAndNotify
  | .valid => impl.asyncRecvByClient

def onReadData (read : DataRead) (impl : Impl) : Impl :=
  match read with
  | .failed => impl.closeAndNotify
  | .arrived shakeHand =>
      if !impl.state.ready then
        if impl.state.websocket then
          if impl.state.server then impl.handleWebsocketShakehandReq shakeHand
          else impl.handleWebsocketShakehandRsp shakeHand
        else impl
      else
        asyncRecv { impl with
          state := impl.state.setPeerActive true
          messages := impl.messages + 1 }

def onWrite (failed : Bool) (impl : Impl) : Impl := if failed then impl.closeAndNotify else impl

/-- `TcpServer::Impl::on_accept`: `added` is whether the peer set has room. -/
def onAccept (websocket added : Bool) (impl : Impl) : Impl :=
  let impl := impl.setConnected
  let impl := { impl with state := impl.state.setServer }
  if added then
    if websocket then impl.asyncRecvShakehand else impl.asyncRecvByServer
  else impl.close

/-- What `clean_dead_peer` does with a peer of the set; it also removes the one it closes. -/
def cleanDead (impl : Impl) : Impl :=
  if impl.state.peerLive then { impl with state := impl.state.setPeerLive false } else impl.close

/-- What `clean_inactive_peer` does with a peer of the set. -/
def cleanInactive (impl : Impl) : Impl :=
  if impl.state.peerActive then { impl with state := impl.state.setPeerActive false }
  else impl.close

end Impl

/-- What happens to a peer. A heartbeat that arrives marks the peer live, a message that is
dispatched marks it active. -/
inductive Event where
  | connect (isConnected : Bool)
  | readHead (read : HeadRead)
  | readData (read : DataRead)
  | write (failed : Bool)
  | send
  | heartbeat
  | liveHeartbeat
  | markLive
  | markActive
  | cleanDead
  | cleanInactive
  | close
  | closeAndNotify
  deriving DecidableEq

/-- One event: only a client peer connects, and only what is in flight completes. -/
def step (handler : TcpPeerHandler) (impl : Impl) : Event → Impl
  | .connect isConnected =>
      if handler.client then impl.onConnect handler.websocket isConnected else impl
  | .readHead read =>
      if .head ∈ impl.reading then
        Impl.onReadHead read { impl with reading := impl.reading.erase .head }
      else impl
  | .readData read =>
      if .data ∈ impl.reading then
        Impl.onReadData read { impl with reading := impl.reading.erase .data }
      else impl
  | .write failed =>
      if 0 < impl.writing then Impl.onWrite failed { impl with writing := impl.writing - 1 }
      else impl
  | .send => impl.asyncSend
  | .heartbeat => impl.asyncSendHeartbeat
  | .liveHeartbeat => impl.asyncSendLiveHeartbeat
  | .markLive => { impl with state := impl.state.setPeerLive true }
  | .markActive => { impl with state := impl.state.setPeerActive true }
  | .cleanDead => impl.cleanDead
  | .cleanInactive => impl.cleanInactive
  | .close => impl.close
  | .closeAndNotify => impl.closeAndNotify

/-- A client peer begins closed, a server peer with its accept. -/
def start (handler : TcpPeerHandler) (added : Bool) : Impl :=
  if handler.client then Impl.made else Impl.made.onAccept handler.websocket added

end TcpPeer

end Cube.Eco.Net
