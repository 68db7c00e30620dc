import Cube.Eco.Net.PeerFlags
import Cube.Eco.Net.PeerClosing
import Cube.Eco.Net.TcpPeerSet

/-! # Cleaning inactive peers

`clean_inactive_peer` is meant for the peers that have not sent a request. It goes by a mark
that the delivery of a message sets, and that a dead-peer tick takes away as well; and an
accepted peer has no mark until its first message.
-/

namespace Cube.Eco.Net

open TcpPeer (Impl)

/-- What the history of a server's peers records. -/
inductive PeerNote where
  | accepted (id : ConnectionId)
  | delivered (id : ConnectionId)
  | dispatched (id : ConnectionId)
  | closed (id : ConnectionId)
  | cleanedDead
  | cleanedInactive
  deriving DecidableEq

/-- The peers of a server, and what has happened to them, the latest first. -/
structure PeerWatch where
  set : TcpPeerSet
  log : List PeerNote

/-- What happens at the server: an accept, something at one peer, or a cleaning tick. -/
inductive PeerSetEvent where
  | accept (id : ConnectionId)
  | peer (id : ConnectionId) (event : TcpPeer.Event)
  | cleanDead
  | cleanInactive
  deriving DecidableEq

namespace TcpPeer

/-- The event delivers a message with data to a ready peer. -/
def delivers (impl : Impl) : Event → Bool
  | .readData (.arrived _) => decide (.data ∈ impl.reading) && impl.state.ready
  | _ => false

/-- The event is a tick, which is for all peers of the set. -/
def ticks : Event → Bool
  | .cleanDead => true
  | .cleanInactive => true
  | _ => false

/-- What the history records of an event at a peer. -/
def noted (handler : TcpPeerHandler) (id : ConnectionId) (impl : Impl) (event : Event) :
    List PeerNote :=
  if delivers impl event then [.delivered id]
  else if event = .markActive then [.dispatched id]
  else if (step handler impl event).state.closed then [.closed id]
  else []

end TcpPeer

namespace PeerWatch

open TcpPeer (delivers noted)

def start (maxConnSize : UInt32) : PeerWatch := ⟨.make maxConnSize, []⟩

/-- One event at the server; `on_close` erases the peer. -/
def turn (websocket : Bool) (watch : PeerWatch) : PeerSetEvent → PeerWatch
  | .accept id =>
      let (added, set) := watch.set.add id (Impl.made.onAccept websocket true)
      if added then ⟨set, .accepted id :: watch.log⟩ else watch
  | .peer id event =>
      match watch.set.peerMap.lookup id with
      | none => watch
      | some peer =>
          if TcpPeer.ticks event then watch
          else
            let after := TcpPeer.step ⟨false, websocket⟩ peer event
            let log := noted ⟨false, websocket⟩ id peer event ++ watch.log
            if peer.notices < after.notices then ⟨watch.set.erase id, log⟩
            else ⟨{ watch.set with peerMap := watch.set.peerMap.insert id after }, log⟩
  | .cleanDead => ⟨watch.set.cleanDeadPeer, .cleanedDead :: watch.log⟩
  | .cleanInactive => ⟨watch.set.cleanInactivePeer, .cleanedInactive :: watch.log⟩

/-- What has happened since the last pass over the inactive peers. -/
def recent (watch : PeerWatch) : List PeerNote := watch.log.takeWhile (· ≠ .cleanedInactive)

/-- A message of the peer was delivered or dispatched since the last tick of either kind, and
since the peer was accepted or closed. -/
def busy (id : ConnectionId) : List PeerNote → Bool
  | [] => false
  | .delivered other :: log => if other = id then true else busy id log
  | .dispatched other :: log => if other = id then true else busy id log
  | .accepted other :: log => if other = id then false else busy id log
  | .closed other :: log => if other = id then false else busy id log
  | .cleanedDead :: _ => false
  | .cleanedInactive :: _ => false

/-- A pass over the inactive peers closes a peer only if no message of it was delivered and
it was not accepted since the pass before. -/
def ClosesInactive (watch : PeerWatch) (event : PeerSetEvent) : Prop :=
  event = .cleanInactive → ∀ id peer, watch.set.peerMap.lookup id = some peer →
    peer.state.closed = false → peer.cleanInactive.state.closed = true →
      .delivered id ∉ watch.recent ∧ .accepted id ∉ watch.recent

/-- At a pass over the inactive peers, a peer that has delivered a message or was accepted
since the pass before is still marked: a message of it was delivered or dispatched after its
accept and after the last tick of either kind. -/
def Marked (watch : PeerWatch) (event : PeerSetEvent) : Prop :=
  event = .cleanInactive → ∀ id peer, watch.set.peerMap.lookup id = some peer →
    peer.state.closed = false →
      .delivered id ∈ watch.recent ∨ .accepted id ∈ watch.recent → busy id watch.log = true

/-- The invariant: the mark of a peer is what the history says. -/
def Recorded (websocket : Bool) (watch : PeerWatch) : Prop :=
  ∀ id peer, watch.set.peerMap.lookup id = some peer →
    peer.state.peerActive = busy id watch.log ∧ TcpPeer.Begun ⟨false, websocket⟩ peer.state

end PeerWatch

/-! ## The mark of a peer -/

namespace TcpPeer

variable {handler : TcpPeerHandler} {impl : Impl}

theorem peerActive_of_closed {s : TcpState} (closed : s.closed = true) : s.peerActive = false := by
  rw [TcpState.closed_iff.mp closed]
  exact TcpState.has_init .peerActive

/-- An active peer is live, so that taking the mark leaves it open. -/
theorem cleanInactive_closed_iff (begun : Begun handler impl.state) :
    impl.cleanInactive.state.closed = true ↔ impl.state.peerActive = false := by
  unfold Impl.cleanInactive
  cases active : impl.state.peerActive with
  | false => simp
  | true =>
      have live : (impl.state.setPeerActive false).has .peerLive = true := by
        rw [TcpState.has_setPeerActive, if_neg nofun, if_pos rfl, Bool.false_or]
        exact begun.active active
      rw [if_pos rfl]
      simp [TcpState.not_closed_of_has live]

theorem cleanDead_peerActive (impl : Impl) : impl.cleanDead.state.peerActive = false := by
  unfold Impl.cleanDead
  split
  · exact TcpState.has_setPeerLive impl.state false .peerActive
  · exact peerActive_of_closed impl.close_closed

theorem cleanInactive_peerActive (impl : Impl) : impl.cleanInactive.state.peerActive = false := by
  unfold Impl.cleanInactive
  split
  · exact TcpState.has_setPeerActive impl.state false .peerActive
  · exact peerActive_of_closed impl.close_closed

theorem onAccept_peerActive (websocket added : Bool) (impl : Impl) :
    (impl.onAccept websocket added).state.peerActive = false := by
  have fresh : ∀ s : TcpState, s.setServer.has .peerActive = false := fun s => s.has_setServer _
  unfold Impl.onAccept
  dsimp only
  split
  · split
    · exact (TcpState.has_setWebsocket _ .peerActive).trans (fresh impl.setConnected.state)
    · exact (TcpState.has_setReady _ .peerActive).trans (fresh impl.setConnected.state)
  · exact peerActive_of_closed (Impl.close_closed _)

/-- A delivered message marks the peer. -/
theorem step_delivers {event : Event} (delivered : delivers impl event = true) :
    (step handler impl event).state.peerActive = true := by
  cases event with
  | readData read =>
      cases read with
      | failed => exact (Bool.false_ne_true delivered).elim
      | arrived shakeHand =>
          obtain ⟨inFlight, ready⟩ := Bool.and_eq_true_iff.mp delivered
          simp only [step, if_pos (of_decide_eq_true inFlight), Impl.onReadData, ready,
            Bool.not_true, Bool.false_eq_true, if_false]
          exact TcpState.has_setPeerActive impl.state true .peerActive
  | _ => exact (Bool.false_ne_true delivered).elim

/-- The start of the hand-shake's answer does not touch the mark. -/
theorem onReadData_peerActive {shakeHand : ShakeHand} (notReady : impl.state.ready = false) :
    (impl.onReadData (.arrived shakeHand)).state.closed = true ∨
      (impl.onReadData (.arrived shakeHand)).state.peerActive = impl.state.peerActive := by
  simp only [Impl.onReadData, notReady, Bool.not_false, if_true]
  split
  · split
    · cases shakeHand with
      | foreign => exact .inr rfl
      | invalid => exact .inl impl.closeAndNotify_closed
      | valid =>
          right
          exact (TcpState.has_setReady _ .peerActive).trans
            (TcpState.has_setSelfLive impl.state true .peerActive)
    · cases shakeHand with
      | foreign => exact .inr rfl
      | invalid => exact .inl impl.closeAndNotify_closed
      | valid => exact .inr (TcpState.has_setReady impl.state .peerActive)
  · exact .inr rfl

theorem asyncSendHeartbeat_peerActive (impl : Impl) :
    impl.asyncSendHeartbeat.state.peerActive = impl.state.peerActive := by
  unfold Impl.asyncSendHeartbeat
  split
  · exact TcpState.has_setSelfLive impl.state true .peerActive
  · rfl

theorem asyncSendLiveHeartbeat_peerActive (impl : Impl) :
    impl.asyncSendLiveHeartbeat.state.peerActive = impl.state.peerActive := by
  unfold Impl.asyncSendLiveHeartbeat
  split
  · rfl
  · split
    · exact TcpState.has_setSelfLive impl.state false .peerActive
    · exact asyncSendHeartbeat_peerActive impl

/-- Any other event at a server's peer closes it or leaves the mark as it is. -/
theorem step_peerActive (server : handler.client = false) {event : Event}
    (undelivered : delivers impl event = false) (unmarked : event ≠ .markActive)
    (single : ticks event = false) :
    (step handler impl event).state.closed = true ∨
      (step handler impl event).state.peerActive = impl.state.peerActive := by
  cases event with
  | connect isConnected =>
      simp only [step, server, Bool.false_eq_true, if_false]
      exact .inr trivial
  | readHead read =>
      simp only [step]
      split
      · cases read with
        | failed | rejected => exact .inl (Impl.closeAndNotify_closed _)
        | decoded dataSize =>
            right
            simp only [Impl.onReadHead]
            split
            · exact TcpState.has_setPeerLive impl.state true .peerActive
            · exact TcpState.has_setPeerLive impl.state true .peerActive
      · exact .inr rfl
  | readData read =>
      simp only [step]
      split
      next inFlight =>
        cases read with
        | failed => exact .inl (Impl.closeAndNotify_closed _)
        | arrived shakeHand =>
            simp only [delivers, inFlight, decide_true, Bool.true_and] at undelivered
            exact onReadData_peerActive undelivered
      next => exact .inr rfl
  | write failed =>
      simp only [step]
      split
      · cases failed with
        | true => exact .inl (Impl.closeAndNotify_closed _)
        | false => exact .inr rfl
      · exact .inr rfl
  | send => exact .inr (TcpState.has_setSelfLive impl.state true .peerActive)
  | heartbeat => exact .inr (asyncSendHeartbeat_peerActive impl)
  | liveHeartbeat => exact .inr (asyncSendLiveHeartbeat_peerActive impl)
  | markLive => exact .inr (TcpState.has_setPeerLive impl.state true .peerActive)
  | markActive => exact (unmarked rfl).elim
  | cleanDead | cleanInactive => exact (Bool.false_ne_true single.symm).elim
  | close => exact .inl impl.close_closed
  | closeAndNotify => exact .inl impl.closeAndNotify_closed

end TcpPeer

/-! ## Runs -/

namespace PeerWatch

open TcpPeer (delivers noted)

/-- What is recorded of a peer says nothing of the others. -/
theorem busy_noted_other {handler : TcpPeerHandler} {id other : ConnectionId}
    (different : id ≠ other) (peer : Impl) (event : TcpPeer.Event) (log : List PeerNote) :
    busy other (noted handler id peer event ++ log) = busy other log := by
  unfold noted
  split
  · exact if_neg different
  · split
    · exact if_neg different
    · split
      · exact if_neg different
      · rfl

/-- What is recorded of a peer is what becomes of its mark. -/
theorem busy_noted_self {handler : TcpPeerHandler} (server : handler.client = false)
    {event : TcpPeer.Event} (single : TcpPeer.ticks event = false) {id : ConnectionId}
    {peer : Impl} {log : List PeerNote} (recorded : peer.state.peerActive = busy id log) :
    (TcpPeer.step handler peer event).state.peerActive =
      busy id (noted handler id peer event ++ log) := by
  unfold noted
  split
  next delivered =>
    rw [TcpPeer.step_delivers delivered]
    exact (if_pos rfl).symm
  next undelivered =>
    split
    next marked =>
      subst marked
      have active : (TcpPeer.step handler peer .markActive).state.peerActive = true :=
        TcpState.has_setPeerActive peer.state true .peerActive
      rw [active]
      exact (if_pos rfl).symm
    next unmarked =>
      split
      next closed =>
        rw [TcpPeer.peerActive_of_closed closed]
        exact (if_pos rfl).symm
      next notClosed =>
        have undelivered : TcpPeer.delivers peer event = false := Bool.eq_false_iff.mpr undelivered
        obtain closed | same := TcpPeer.step_peerActive server undelivered unmarked single
        · exact (notClosed closed).elim
        · rw [same]
          exact recorded

theorem recorded_accept {websocket : Bool} {watch : PeerWatch} (recorded : Recorded websocket watch)
    (id : ConnectionId) : Recorded websocket (watch.turn websocket (.accept id)) := by
  simp only [turn, TcpPeerSet.add]
  split
  · exact recorded
  · intro other peer found
    rw [if_pos rfl] at found ⊢
    by_cases same : id = other
    · subst same
      rw [AList.lookup_insert] at found
      cases found
      constructor
      · rw [TcpPeer.onAccept_peerActive]
        exact (if_pos rfl).symm
      · exact TcpPeer.begun_onAccept rfl websocket true
    · rw [AList.lookup_insert_ne (Ne.symm same)] at found
      obtain ⟨active, begun⟩ := recorded other peer found
      exact ⟨active.trans (if_neg same).symm, begun⟩

theorem recorded_peer {websocket : Bool} {watch : PeerWatch} (recorded : Recorded websocket watch)
    (id : ConnectionId) (event : TcpPeer.Event) :
    Recorded websocket (watch.turn websocket (.peer id event)) := by
  simp only [turn]
  split
  next => exact recorded
  next peer present =>
    split
    next => exact recorded
    next single =>
      obtain ⟨active, begun⟩ := recorded id peer present
      split
      · intro other remaining found
        by_cases same : other = id
        · subst same
          rw [TcpPeerSet.erase, AList.lookup_erase] at found
          cases found
        · rw [TcpPeerSet.erase, AList.lookup_erase_ne same] at found
          rw [busy_noted_other (Ne.symm same)]
          exact recorded other remaining found
      · intro other remaining found
        by_cases same : other = id
        · subst same
          rw [AList.lookup_insert] at found
          cases found
          exact ⟨busy_noted_self rfl (Bool.eq_false_iff.mpr single) active,
            TcpPeer.begun_step begun event⟩
        · rw [AList.lookup_insert_ne same] at found
          rw [busy_noted_other (Ne.symm same)]
          exact recorded other remaining found

theorem recorded_cleanDead {websocket : Bool} {watch : PeerWatch}
    (recorded : Recorded websocket watch) :
    Recorded websocket (watch.turn websocket .cleanDead) := by
  intro id peer found
  simp only [turn, TcpPeerSet.cleanDeadPeer, TcpPeerSet.lookup_visit] at found
  obtain ⟨before, present, kept⟩ := Option.bind_eq_some_iff.mp found
  split at kept
  next live =>
    cases kept
    constructor
    · exact TcpPeer.cleanDead_peerActive before
    · have begun := (recorded id before present).2
      rw [Impl.cleanDead, if_pos live]
      exact begun.setPeerLive false
  next => cases kept

theorem recorded_cleanInactive {websocket : Bool} {watch : PeerWatch}
    (recorded : Recorded websocket watch) :
    Recorded websocket (watch.turn websocket .cleanInactive) := by
  intro id peer found
  simp only [turn, TcpPeerSet.cleanInactivePeer, TcpPeerSet.lookup_visit] at found
  obtain ⟨before, present, kept⟩ := Option.bind_eq_some_iff.mp found
  split at kept
  next active =>
    cases kept
    constructor
    · exact TcpPeer.cleanInactive_peerActive before
    · have begun := (recorded id before present).2
      rw [Impl.cleanInactive, if_pos active]
      exact begun.setPeerActive false
  next => cases kept

/-- Every event keeps the record of the marks. -/
theorem recorded_turn {websocket : Bool} {watch : PeerWatch} (recorded : Recorded websocket watch)
    (event : PeerSetEvent) : Recorded websocket (watch.turn websocket event) := by
  cases event with
  | accept id => exact recorded_accept recorded id
  | peer id event => exact recorded_peer recorded id event
  | cleanDead => exact recorded_cleanDead recorded
  | cleanInactive => exact recorded_cleanInactive recorded

/-- A pass closes the peers without a mark, so it closes inactive peers only if the others
are marked. -/
theorem closesInactive_iff {websocket : Bool} {watch : PeerWatch}
    (recorded : Recorded websocket watch) (event : PeerSetEvent) :
    ClosesInactive watch event ↔ Marked watch event := by
  constructor
  · intro closes pass id peer present notClosed late
    obtain ⟨active, begun⟩ := recorded id peer present
    by_contra idle
    rw [Bool.not_eq_true, ← active] at idle
    obtain ⟨undelivered, settled⟩ := closes pass id peer present notClosed
      ((TcpPeer.cleanInactive_closed_iff begun).mpr idle)
    exact late.elim undelivered settled
  · intro marked pass id peer present notClosed closed
    obtain ⟨active, begun⟩ := recorded id peer present
    have idle := (TcpPeer.cleanInactive_closed_iff begun).mp closed
    have unmarked : ¬ busy id watch.log = true := by
      rw [← active, idle]
      exact Bool.false_ne_true
    constructor
    · exact fun delivered => unmarked (marked pass id peer present notClosed (.inl delivered))
    · exact fun accepted => unmarked (marked pass id peer present notClosed (.inr accepted))

/-- **Inactive peers.** Along a run of a server, the passes over the inactive peers close
only peers that were accepted before the pass before and have delivered no message since,
exactly when at every pass the other peers are still marked. -/
theorem closes_inactive_iff (websocket : Bool) (maxConnSize : UInt32)
    (events : List PeerSetEvent) :
    Run.Always (turn websocket) (fun _ => True) ClosesInactive (start maxConnSize) events ↔
      Run.Steps (turn websocket) Marked (start maxConnSize) events := by
  apply Run.always_iff_steps (Recorded websocket)
  · exact fun _ _ => trivial
  · exact fun watch event recorded marked =>
      ⟨(closesInactive_iff recorded event).mpr marked, recorded_turn recorded event⟩
  · exact fun watch event recorded unmarked allowed =>
      unmarked ((closesInactive_iff recorded event).mp allowed.1)
  · intro id peer found
    rw [start, TcpPeerSet.make, AList.lookup_empty] at found
    cases found

/-- A peer delivers a message between two ticks: the dead-peer tick takes its mark. -/
def messageThenTicks : List PeerSetEvent :=
  [.accept 1, .peer 1 (.readHead (.decoded 5)), .peer 1 (.readData (.arrived .foreign)),
    .cleanDead, .cleanInactive]

/-- The next tick closes it, and it also closes a peer that has just been accepted. -/
theorem closes_active :
    ¬ Run.Always (turn false) (fun _ => True) ClosesInactive (start 1024) messageThenTicks ∧
      ¬ Run.Always (turn false) (fun _ => True) ClosesInactive (start 1024)
        [.accept 1, .cleanInactive] := by
  constructor
  · intro always
    have closes : ClosesInactive (Run.final (turn false) (start 1024)
        (messageThenTicks.take 4)) .cleanInactive := always.2.2.2.2.2.2.2.2.2.1
    let peer := Run.final (TcpPeer.step ⟨false, false⟩) (Impl.made.onAccept false true)
      [.readHead (.decoded 5), .readData (.arrived .foreign), .cleanDead]
    have delivered := (closes rfl 1 peer rfl (by decide) (by decide)).1
    exact delivered (by decide)
  · intro always
    have closes : ClosesInactive ((start 1024).turn false (.accept 1)) .cleanInactive :=
      always.2.2.2.1
    have accepted := (closes rfl 1 (Impl.made.onAccept false true) rfl rfl rfl).2
    exact accepted (by decide)

end PeerWatch

end Cube.Eco.Net
