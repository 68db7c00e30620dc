import Cube.Eco.Net.TcpPeerLife

/-! # The flags of a peer

What the flags of a peer say of each other on every run, and what a setter leaves alone. The
two liveness marks are coupled on purpose: an active peer is live. `set_connected` assigns
the word, so that a connection begins without the marks of the one before.
-/

namespace Cube.Eco.Net.TcpPeer

/-- The invariant: only a connection that has begun is ready or in a hand-shake. -/
structure Begun (handler : TcpPeerHandler) (s : TcpState) : Prop where
  ready : s.has .ready = true → s.has .connected = true ∨ s.has .server = true
  websocket : s.has .websocket = true → s.has .connected = true ∨ s.has .server = true
  role : handler.client = true → s.has .server = false
  active : s.has .peerActive = true → s.has .peerLive = true

namespace Begun

variable {handler : TcpPeerHandler} {s : TcpState}

theorem init : Begun handler TcpState.init where
  ready held := by simp at held
  websocket held := by simp at held
  role _ := TcpState.has_init .server
  active held := by simp at held

theorem setConnected : Begun handler (s.setConnected.setPeerLive true) := by
  constructor <;> simp [TcpState.has_setPeerLive, TcpState.has_setConnected]

theorem setServer (server : handler.client = false) : Begun handler s.setServer := by
  constructor <;> simp [TcpState.has_setServer, server]

theorem setReady (begun : Begun handler s)
    (role : s.has .connected = true ∨ s.has .server = true) : Begun handler s.setReady := by
  constructor
  · simpa [TcpState.has_setReady] using role
  · simpa [TcpState.has_setReady] using begun.websocket
  · simpa [TcpState.has_setReady] using begun.role
  · simpa [TcpState.has_setReady] using begun.active

theorem setWebsocket (begun : Begun handler s)
    (role : s.has .connected = true ∨ s.has .server = true) : Begun handler s.setWebsocket := by
  constructor
  · simpa [TcpState.has_setWebsocket] using begun.ready
  · simpa [TcpState.has_setWebsocket] using role
  · simpa [TcpState.has_setWebsocket] using begun.role
  · simpa [TcpState.has_setWebsocket] using begun.active

theorem setSelfLive (begun : Begun handler s) (is : Bool) : Begun handler (s.setSelfLive is) := by
  constructor
  · simpa [TcpState.has_setSelfLive] using begun.ready
  · simpa [TcpState.has_setSelfLive] using begun.websocket
  · simpa [TcpState.has_setSelfLive] using begun.role
  · simpa [TcpState.has_setSelfLive] using begun.active

theorem setPeerLive (begun : Begun handler s) (is : Bool) : Begun handler (s.setPeerLive is) := by
  constructor
  · simpa [TcpState.has_setPeerLive] using begun.ready
  · simpa [TcpState.has_setPeerLive] using begun.websocket
  · simpa [TcpState.has_setPeerLive] using begun.role
  · cases is with
    | true => simp [TcpState.has_setPeerLive]
    | false => simp [TcpState.has_setPeerLive]

theorem setPeerActive (begun : Begun handler s) (is : Bool) :
    Begun handler (s.setPeerActive is) := by
  constructor
  · simpa [TcpState.has_setPeerActive] using begun.ready
  · simpa [TcpState.has_setPeerActive] using begun.websocket
  · simpa [TcpState.has_setPeerActive] using begun.role
  · cases is with
    | true => simp [TcpState.has_setPeerActive]
    | false => simp [TcpState.has_setPeerActive]

end Begun

/-! ## What each call keeps -/

section Calls

variable {handler : TcpPeerHandler} {impl : Impl}

theorem begun_close (begun : Begun handler impl.state) : Begun handler impl.close.state := by
  unfold Impl.close
  split
  · exact begun
  · exact Begun.init

theorem begun_onConnect (websocket isConnected : Bool) (begun : Begun handler impl.state) :
    Begun handler (impl.onConnect websocket isConnected).state := by
  have connected : (impl.state.setConnected.setPeerLive true).has .connected = true := by
    rw [TcpState.has_setPeerLive, TcpState.has_setConnected]
    rfl
  unfold Impl.onConnect
  split
  · exact begun
  · dsimp only
    split
    · have again (s : TcpState) (held : s.has .connected = true) :
          s.setWebsocket.has .connected = true := by
        rw [TcpState.has_setWebsocket, if_neg nofun]
        exact held
      apply Begun.setWebsocket
      · exact (Begun.setConnected.setWebsocket (.inl connected)).setSelfLive true
      · left
        change ((impl.state.setConnected.setPeerLive true).setWebsocket.setSelfLive true).has
          .connected = true
        rw [TcpState.has_setSelfLive, if_neg nofun]
        exact again _ connected
    · exact Begun.setConnected.setReady (.inl connected)

theorem begun_onReadHead (read : HeadRead) (begun : Begun handler impl.state) :
    Begun handler (impl.onReadHead read).state := by
  cases read with
  | failed | rejected => exact begun_close begun
  | decoded dataSize =>
      simp only [Impl.onReadHead]
      split
      · exact begun.setPeerLive true
      · exact begun.setPeerLive true

theorem begun_handleWebsocketShakehandReq (shakeHand : ShakeHand)
    (begun : Begun handler impl.state) (server : impl.state.has .server = true) :
    Begun handler (impl.handleWebsocketShakehandReq shakeHand).state := by
  cases shakeHand with
  | foreign => exact begun
  | invalid => exact begun_close begun
  | valid =>
      apply (begun.setSelfLive true).setReady
      right
      rw [TcpState.has_setSelfLive, if_neg nofun]
      exact server

theorem begun_handleWebsocketShakehandRsp (shakeHand : ShakeHand)
    (begun : Begun handler impl.state)
    (role : impl.state.has .connected = true ∨ impl.state.has .server = true) :
    Begun handler (impl.handleWebsocketShakehandRsp shakeHand).state := by
  cases shakeHand with
  | foreign => exact begun
  | invalid => exact begun_close begun
  | valid => exact begun.setReady role

theorem begun_onReadData (read : DataRead) (begun : Begun handler impl.state) :
    Begun handler (impl.onReadData read).state := by
  cases read with
  | failed => exact begun_close begun
  | arrived shakeHand =>
      simp only [Impl.onReadData]
      split
      · split
        next websocket =>
          split
          next server => exact begun_handleWebsocketShakehandReq shakeHand begun server
          next =>
            exact begun_handleWebsocketShakehandRsp shakeHand begun (begun.websocket websocket)
        next => exact begun
      · exact begun.setPeerActive true

theorem begun_asyncSendHeartbeat (begun : Begun handler impl.state) :
    Begun handler impl.asyncSendHeartbeat.state := by
  unfold Impl.asyncSendHeartbeat
  split
  · exact begun.setSelfLive true
  · exact begun

theorem begun_asyncSendLiveHeartbeat (begun : Begun handler impl.state) :
    Begun handler impl.asyncSendLiveHeartbeat.state := by
  unfold Impl.asyncSendLiveHeartbeat
  split
  · exact begun
  · split
    · exact begun.setSelfLive false
    · exact begun_asyncSendHeartbeat begun

theorem begun_onAccept (server : handler.client = false) (websocket added : Bool) :
    Begun handler (impl.onAccept websocket added).state := by
  have role (s : TcpState) : s.setServer.has .server = true := by
    rw [TcpState.has_setServer]
    rfl
  have accepted : Begun handler impl.setConnected.state.setServer := Begun.setServer server
  unfold Impl.onAccept
  dsimp only
  split
  · split
    · exact accepted.setWebsocket (.inr (role impl.setConnected.state))
    · exact accepted.setReady (.inr (role impl.setConnected.state))
  · exact begun_close accepted

end Calls

theorem begun_step {handler : TcpPeerHandler} {impl : Impl} (begun : Begun handler impl.state)
    (event : Event) : Begun handler (step handler impl event).state := by
  cases event with
  | connect isConnected =>
      simp only [step]
      split
      · exact begun_onConnect handler.websocket isConnected begun
      · exact begun
  | readHead read =>
      simp only [step]
      split
      · exact begun_onReadHead read begun
      · exact begun
  | readData read =>
      simp only [step]
      split
      · exact begun_onReadData read begun
      · exact begun
  | write failed =>
      simp only [step]
      split
      · cases failed with
        | true => exact begun_close begun
        | false => exact begun
      · exact begun
  | send => exact begun.setSelfLive true
  | heartbeat => exact begun_asyncSendHeartbeat begun
  | liveHeartbeat => exact begun_asyncSendLiveHeartbeat begun
  | markLive => exact begun.setPeerLive true
  | markActive => exact begun.setPeerActive true
  | cleanDead =>
      simp only [step, Impl.cleanDead]
      split
      · exact begun.setPeerLive false
      · exact begun_close begun
  | cleanInactive =>
      simp only [step, Impl.cleanInactive]
      split
      · exact begun.setPeerActive false
      · exact begun_close begun
  | close => exact begun_close begun
  | closeAndNotify => exact begun_close begun

end Cube.Eco.Net.TcpPeer
