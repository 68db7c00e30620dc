import Cube.Eco.Net.TcpPeerLife

/-! # Closed peers

Two things can go wrong with a peer that is closed. The marks of its state are added without
a look at whether it is closed, and any mark makes the word differ from zero. And
`close_and_notify` calls `on_close` also when the peer is closed already, so that a write and
a read that both fail are two notices.
-/

namespace Cube.Eco.Net.TcpPeer

/-- The event is a new connection. -/
def connects (handler : TcpPeerHandler) (event : Event) : Prop :=
  handler.client = true ∧ event = .connect true

/-- The event calls `on_close`. -/
def notifies (impl : Impl) : Event → Prop
  | .readHead .failed => .head ∈ impl.reading
  | .readHead .rejected => .head ∈ impl.reading
  | .readData .failed => .data ∈ impl.reading
  | .readData (.arrived .invalid) =>
      .data ∈ impl.reading ∧ impl.state.ready = false ∧ impl.state.websocket = true
  | .write true => 0 < impl.writing
  | .closeAndNotify => True
  | _ => False

/-- The event adds a mark to the state whatever the state is. -/
def marks (impl : Impl) : Event → Prop
  | .readHead (.decoded _) => .head ∈ impl.reading
  | .send => True
  | .markLive => True
  | .markActive => True
  | _ => False

/-- Nothing marks a closed peer, and nothing fails on a connection that was given up. -/
def Quiet (impl : Impl) (event : Event) : Prop :=
  (impl.state.closed = true → ¬ marks impl event) ∧ (0 < impl.notices → ¬ notifies impl event)

/-- A closed peer stays closed and hands on nothing, unless it connects anew. -/
def StaysClosed (handler : TcpPeerHandler) (impl : Impl) (event : Event) : Prop :=
  impl.state.closed = true → connects handler event ∨
    (step handler impl event).state.closed = true ∧
      (step handler impl event).messages = impl.messages

namespace Impl

@[simp] theorem close_notices (impl : Impl) : impl.close.notices = impl.notices := by
  unfold close
  split
  · rfl
  · rfl

@[simp] theorem close_messages (impl : Impl) : impl.close.messages = impl.messages := by
  unfold close
  split
  · rfl
  · rfl

@[simp] theorem close_closed (impl : Impl) : impl.close.state.closed = true := by
  unfold close
  split
  next closed => exact closed
  next => rfl

@[simp] theorem closeAndNotify_closed (impl : Impl) : impl.closeAndNotify.state.closed = true :=
  impl.close_closed

@[simp] theorem closeAndNotify_notices (impl : Impl) :
    impl.closeAndNotify.notices = impl.notices + 1 :=
  congrArg (· + 1) impl.close_notices

@[simp] theorem closeAndNotify_messages (impl : Impl) :
    impl.closeAndNotify.messages = impl.messages :=
  impl.close_messages

@[simp] theorem asyncSendHeartbeat_notices (impl : Impl) :
    impl.asyncSendHeartbeat.notices = impl.notices := by
  unfold asyncSendHeartbeat
  split
  · rfl
  · rfl

@[simp] theorem asyncSendLiveHeartbeat_notices (impl : Impl) :
    impl.asyncSendLiveHeartbeat.notices = impl.notices := by
  unfold asyncSendLiveHeartbeat
  split
  · rfl
  · split
    · rfl
    · exact impl.asyncSendHeartbeat_notices

@[simp] theorem cleanDead_notices (impl : Impl) : impl.cleanDead.notices = impl.notices := by
  unfold cleanDead
  split
  · rfl
  · exact impl.close_notices

@[simp] theorem cleanInactive_notices (impl : Impl) :
    impl.cleanInactive.notices = impl.notices := by
  unfold cleanInactive
  split
  · rfl
  · exact impl.close_notices

theorem onConnect_notices (websocket : Bool) (impl : Impl) :
    (impl.onConnect websocket true).notices = 0 := by
  cases websocket with
  | true => rfl
  | false => rfl

theorem onReadHead_decoded_notices (dataSize : UInt32) (impl : Impl) :
    (impl.onReadHead (.decoded dataSize)).notices = impl.notices := by
  simp only [onReadHead]
  split
  · rfl
  · rfl

/-- Data is refused only as a hand-shake that is not valid. -/
theorem onReadData_arrived_notices (shakeHand : ShakeHand) (impl : Impl) :
    (impl.onReadData (.arrived shakeHand)).notices =
      if shakeHand = .invalid ∧ impl.state.ready = false ∧ impl.state.websocket = true then
        impl.notices + 1
      else impl.notices := by
  simp only [onReadData]
  cases ready : impl.state.ready with
  | true =>
      rw [if_neg (by simp), if_neg (by simp)]
      rfl
  | false =>
      rw [Bool.not_false, if_pos rfl]
      cases websocket : impl.state.websocket with
      | false =>
          rw [if_neg Bool.false_ne_true, if_neg (by simp)]
      | true =>
          rw [if_pos rfl]
          cases impl.state.server <;> cases shakeHand <;>
            simp [handleWebsocketShakehandReq, handleWebsocketShakehandRsp, asyncRecvByServer,
              asyncRecvByClient, asyncRecv, asyncSend]

/-- A closed peer is neither ready nor in a hand-shake: the data is dropped. -/
theorem onReadData_arrived_of_closed {impl : Impl} (closed : impl.state = TcpState.init)
    (shakeHand : ShakeHand) : impl.onReadData (.arrived shakeHand) = impl := by
  have notReady : impl.state.ready = false := by
    rw [closed]
    exact TcpState.has_init .ready
  have notWebsocket : impl.state.websocket = false := by
    rw [closed]
    exact TcpState.has_init .websocket
  simp only [onReadData, notReady, notWebsocket, Bool.not_false, if_true, Bool.false_eq_true,
    if_false]

theorem asyncSendHeartbeat_of_closed {impl : Impl} (closed : impl.state = TcpState.init) :
    impl.asyncSendHeartbeat = impl := by
  have notReady : impl.state.ready = false := by
    rw [closed]
    exact TcpState.has_init .ready
  rw [asyncSendHeartbeat, notReady, if_neg Bool.false_ne_true]

theorem asyncSendLiveHeartbeat_of_closed {impl : Impl} (closed : impl.state = TcpState.init) :
    impl.asyncSendLiveHeartbeat = impl := by
  have notReady : impl.state.ready = false := by
    rw [closed]
    exact TcpState.has_init .ready
  rw [asyncSendLiveHeartbeat, notReady, Bool.not_false, if_pos rfl]

theorem cleanDead_of_closed {impl : Impl} (closed : impl.state = TcpState.init) :
    impl.cleanDead = impl.close := by
  have notLive : impl.state.peerLive = false := by
    rw [closed]
    exact TcpState.has_init .peerLive
  rw [cleanDead, notLive, if_neg Bool.false_ne_true]

theorem cleanInactive_of_closed {impl : Impl} (closed : impl.state = TcpState.init) :
    impl.cleanInactive = impl.close := by
  have notActive : impl.state.peerActive = false := by
    rw [closed]
    exact TcpState.has_init .peerActive
  rw [cleanInactive, notActive, if_neg Bool.false_ne_true]

end Impl

/-! ## One event -/

/-- An event that notifies is one notice more. -/
theorem step_notifies {impl : Impl} {event : Event} (notified : notifies impl event)
    (handler : TcpPeerHandler) : (step handler impl event).notices = impl.notices + 1 := by
  cases event with
  | readHead read =>
      cases read with
      | failed | rejected =>
          have inFlight : Reading.head ∈ impl.reading := notified
          simp only [step, if_pos inFlight, Impl.onReadHead, Impl.closeAndNotify_notices]
      | decoded => exact notified.elim
  | readData read =>
      cases read with
      | failed =>
          have inFlight : Reading.data ∈ impl.reading := notified
          simp only [step, if_pos inFlight, Impl.onReadData, Impl.closeAndNotify_notices]
      | arrived shakeHand =>
          cases shakeHand with
          | invalid =>
              obtain ⟨inFlight, notReady, websocket⟩ := notified
              simp only [step, if_pos inFlight, Impl.onReadData_arrived_notices]
              rw [if_pos ⟨trivial, notReady, websocket⟩]
          | foreign | valid => exact notified.elim
  | write failed =>
      cases failed with
      | true =>
          have inFlight : 0 < impl.writing := notified
          simp only [step, if_pos inFlight, Impl.onWrite, if_true, Impl.closeAndNotify_notices]
      | false => exact notified.elim
  | closeAndNotify => exact impl.closeAndNotify_notices
  | _ => exact notified.elim

/-- No other event is a notice, and a new connection begins without one. -/
theorem step_notices_le {impl : Impl} {event : Event} (silent : ¬ notifies impl event)
    (handler : TcpPeerHandler) : (step handler impl event).notices ≤ impl.notices := by
  cases event with
  | connect isConnected =>
      simp only [step]
      split
      · cases isConnected with
        | true =>
            rw [Impl.onConnect_notices]
            exact Nat.zero_le _
        | false => exact Nat.le_refl _
      · exact Nat.le_refl _
  | readHead read =>
      simp only [step]
      split
      next inFlight =>
        cases read with
        | failed | rejected => exact (silent inFlight).elim
        | decoded dataSize =>
            exact Nat.le_of_eq (Impl.onReadHead_decoded_notices dataSize _)
      next => exact Nat.le_refl _
  | readData read =>
      simp only [step]
      split
      next inFlight =>
        cases read with
        | failed => exact (silent inFlight).elim
        | arrived shakeHand =>
            rw [Impl.onReadData_arrived_notices]
            split
            next refused =>
              obtain ⟨rfl, notReady, websocket⟩ := refused
              exact (silent ⟨inFlight, notReady, websocket⟩).elim
            next => exact Nat.le_refl _
      next => exact Nat.le_refl _
  | write failed =>
      simp only [step]
      split
      next inFlight =>
        cases failed with
        | true => exact (silent inFlight).elim
        | false => exact Nat.le_refl _
      next => exact Nat.le_refl _
  | send | markLive | markActive => exact Nat.le_refl _
  | heartbeat => exact Nat.le_of_eq impl.asyncSendHeartbeat_notices
  | liveHeartbeat => exact Nat.le_of_eq impl.asyncSendLiveHeartbeat_notices
  | cleanDead => exact Nat.le_of_eq impl.cleanDead_notices
  | cleanInactive => exact Nat.le_of_eq impl.cleanInactive_notices
  | close => exact Nat.le_of_eq impl.close_notices
  | closeAndNotify => exact (silent trivial).elim

/-- What does not mark a closed peer leaves it closed. -/
theorem staysClosed_of_not_marks {impl : Impl} {event : Event} (unmarked : ¬ marks impl event)
    (handler : TcpPeerHandler) : StaysClosed handler impl event := by
  intro closed
  have same : impl.state = TcpState.init := TcpState.closed_iff.mp closed
  cases event with
  | connect isConnected =>
      by_cases connected : connects handler (.connect isConnected)
      · exact .inl connected
      · right
        simp only [step]
        split
        next client =>
          cases isConnected with
          | true => exact (connected ⟨client, rfl⟩).elim
          | false => exact ⟨closed, rfl⟩
        next => exact ⟨closed, rfl⟩
  | readHead read =>
      right
      simp only [step]
      split
      next inFlight =>
        cases read with
        | failed | rejected => exact ⟨Impl.closeAndNotify_closed _, Impl.closeAndNotify_messages _⟩
        | decoded dataSize => exact (unmarked inFlight).elim
      next => exact ⟨closed, rfl⟩
  | readData read =>
      right
      simp only [step]
      split
      · cases read with
        | failed => exact ⟨Impl.closeAndNotify_closed _, Impl.closeAndNotify_messages _⟩
        | arrived shakeHand =>
            rw [Impl.onReadData_arrived_of_closed (by exact same)]
            exact ⟨closed, rfl⟩
      · exact ⟨closed, rfl⟩
  | write failed =>
      right
      simp only [step]
      split
      · cases failed with
        | true => exact ⟨Impl.closeAndNotify_closed _, Impl.closeAndNotify_messages _⟩
        | false => exact ⟨closed, rfl⟩
      · exact ⟨closed, rfl⟩
  | send | markLive | markActive => exact (unmarked trivial).elim
  | heartbeat =>
      right
      simp only [step, Impl.asyncSendHeartbeat_of_closed same]
      exact ⟨closed, trivial⟩
  | liveHeartbeat =>
      right
      simp only [step, Impl.asyncSendLiveHeartbeat_of_closed same]
      exact ⟨closed, trivial⟩
  | cleanDead =>
      right
      simp only [step, Impl.cleanDead_of_closed same]
      exact ⟨impl.close_closed, impl.close_messages⟩
  | cleanInactive =>
      right
      simp only [step, Impl.cleanInactive_of_closed same]
      exact ⟨impl.close_closed, impl.close_messages⟩
  | close => exact .inr ⟨impl.close_closed, impl.close_messages⟩
  | closeAndNotify => exact .inr ⟨impl.closeAndNotify_closed, impl.closeAndNotify_messages⟩

/-- A mark makes the state of a closed peer differ from the closed one. -/
theorem not_staysClosed_of_has {handler : TcpPeerHandler} {impl : Impl} {event : Event}
    (closed : impl.state.closed = true) (old : ¬ connects handler event) {mark : TcpFlag}
    (marked : (step handler impl event).state.has mark = true) :
    ¬ StaysClosed handler impl event := by
  intro stays
  rcases stays closed with connected | ⟨stillClosed, _⟩
  · exact old connected
  · rw [TcpState.not_closed_of_has marked] at stillClosed
    exact Bool.false_ne_true stillClosed

theorem not_staysClosed_of_marks {impl : Impl} {event : Event} (closed : impl.state.closed = true)
    (marked : marks impl event) (handler : TcpPeerHandler) :
    ¬ StaysClosed handler impl event := by
  cases event with
  | readHead read =>
      cases read with
      | failed | rejected => exact marked.elim
      | decoded dataSize =>
          have inFlight : Reading.head ∈ impl.reading := marked
          have live : (step handler impl (.readHead (.decoded dataSize))).state.has .peerLive =
              true := by
            simp only [step, if_pos inFlight, Impl.onReadHead]
            split
            · exact (TcpState.has_setPeerLive impl.state true .peerLive).trans (if_pos rfl)
            · exact (TcpState.has_setPeerLive impl.state true .peerLive).trans (if_pos rfl)
          exact not_staysClosed_of_has closed (fun ⟨_, other⟩ => nomatch other) live
  | send =>
      have live : (step handler impl .send).state.has .selfLive = true :=
        (TcpState.has_setSelfLive impl.state true .selfLive).trans (if_pos rfl)
      exact not_staysClosed_of_has closed (fun ⟨_, other⟩ => nomatch other) live
  | markLive =>
      have live : (step handler impl .markLive).state.has .peerLive = true :=
        (TcpState.has_setPeerLive impl.state true .peerLive).trans (if_pos rfl)
      exact not_staysClosed_of_has closed (fun ⟨_, other⟩ => nomatch other) live
  | markActive =>
      have active : (step handler impl .markActive).state.has .peerActive = true :=
        (TcpState.has_setPeerActive impl.state true .peerActive).trans (if_pos rfl)
      exact not_staysClosed_of_has closed (fun ⟨_, other⟩ => nomatch other) active
  | _ => exact marked.elim

/-! ## Runs -/

/-- **Closed peers.** Along a run of a peer, a closed peer stays closed, hands on no message
and is reported at most once for each connection, exactly when every event is quiet. -/
theorem closed_once_iff (handler : TcpPeerHandler) (added : Bool) (events : List Event) :
    Run.Always (step handler) (fun impl => impl.notices ≤ 1) (StaysClosed handler)
        (start handler added) events ↔
      Run.Steps (step handler) Quiet (start handler added) events := by
  apply Run.always_iff_steps (fun impl => impl.notices ≤ 1)
  · exact fun _ once => once
  · intro impl event once ⟨unmarked, unnoticed⟩
    constructor
    · intro closed
      exact staysClosed_of_not_marks (unmarked closed) handler closed
    · by_cases notified : notifies impl event
      · have none : ¬ 0 < impl.notices := fun noticed => unnoticed noticed notified
        have counted := step_notifies notified handler
        omega
      · exact Nat.le_trans (step_notices_le notified handler) once
  · intro impl event once notQuiet ⟨stays, stillOnce⟩
    apply notQuiet
    constructor
    · intro closed marked
      exact not_staysClosed_of_marks closed marked handler stays
    · intro noticed notified
      have counted := step_notifies notified handler
      omega
  · unfold start
    split
    · exact Nat.zero_le 1
    · unfold Impl.onAccept
      split
      · split
        · exact Nat.zero_le 1
        · exact Nat.zero_le 1
      · rw [Impl.close_notices]
        exact Nat.zero_le 1

/-- A client peer whose write and whose read both fail. -/
def failedTwice : List Event :=
  [.connect true, .send, .write true, .readHead .failed]

/-- Its handler is told twice. -/
theorem closed_twice : ¬ Run.Always (step ⟨true, false⟩) (fun impl => impl.notices ≤ 1)
    (StaysClosed ⟨true, false⟩) (start ⟨true, false⟩ true) failedTwice := by
  intro always
  have once := always.final
  revert once
  decide

end Cube.Eco.Net.TcpPeer
