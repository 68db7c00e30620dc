import Cube.Eco.Thread.State

/-! # The state of a connection

`TcpState` keeps the life of a connection (closed, connected, ready), its role and the marks
of the cleaning ticks in one word: the connection is closed when the word is zero.
-/

namespace Cube.Eco.Net

open Cube.Eco.Thread

structure TcpState where
  state : AtomicState
  deriving DecidableEq

/-- What a flag of the word says of the connection. -/
inductive TcpFlag where
  | server
  | connected
  | ready
  | websocket
  | selfLive
  | peerLive
  | peerActive
  deriving DecidableEq

/-- The bit of a flag. -/
def TcpFlag.mask : TcpFlag → UInt32
  | .server => AtomicState.a
  | .connected => AtomicState.b
  | .ready => AtomicState.c
  | .websocket => AtomicState.d
  | .selfLive => AtomicState.e
  | .peerLive => AtomicState.f
  | .peerActive => AtomicState.g

namespace TcpState

/-- The constructor. -/
def init : TcpState := ⟨AtomicState.none⟩

def setClosed (_ : TcpState) : TcpState := ⟨AtomicState.none⟩

def closed (s : TcpState) : Bool := s.state.isNone

/-- `set_server`: the word is assigned. -/
def setServer (_ : TcpState) : TcpState := ⟨⟨AtomicState.a⟩⟩

def server (s : TcpState) : Bool := s.state.has AtomicState.a

/-- `set_connected`: the word is assigned. -/
def setConnected (_ : TcpState) : TcpState := ⟨⟨AtomicState.b⟩⟩

def connected (s : TcpState) : Bool := s.state.has AtomicState.b

def setReady (s : TcpState) : TcpState := ⟨s.state.add AtomicState.c⟩

def ready (s : TcpState) : Bool := s.state.has AtomicState.c

def setWebsocket (s : TcpState) : TcpState := ⟨s.state.add AtomicState.d⟩

def websocket (s : TcpState) : Bool := s.state.has AtomicState.d

def setSelfLive (s : TcpState) (is : Bool) : TcpState := ⟨s.state.set is AtomicState.e⟩

def selfLive (s : TcpState) : Bool := s.state.has AtomicState.e

/-- `set_peer_live`: a peer that is not live is not active either. -/
def setPeerLive (s : TcpState) (is : Bool) : TcpState :=
  if is then ⟨s.state.add AtomicState.f⟩ else ⟨s.state.del (AtomicState.f ||| AtomicState.g)⟩

def peerLive (s : TcpState) : Bool := s.state.has AtomicState.f

/-- `set_peer_active`: an active peer is live. -/
def setPeerActive (s : TcpState) (is : Bool) : TcpState :=
  if is then ⟨s.state.add (AtomicState.g ||| AtomicState.f)⟩ else ⟨s.state.del AtomicState.g⟩

def peerActive (s : TcpState) : Bool := s.state.has AtomicState.g

/-! ## The flags after a setter -/

/-- The word has the flag. -/
def has (s : TcpState) (flag : TcpFlag) : Bool := s.state.has flag.mask

theorem mask_ne_zero (flag : TcpFlag) : flag.mask ≠ 0 := by
  cases flag with
  | server | connected | ready | websocket | selfLive | peerLive | peerActive => decide

theorem mask_disjoint {first second : TcpFlag} (different : first ≠ second) :
    first.mask &&& second.mask = 0 := by
  revert different
  cases first <;> cases second <;> decide

/-- Setting a flag by its bit changes this flag alone. -/
theorem has_set (s : TcpState) (is : Bool) (changed flag : TcpFlag) :
    has ⟨s.state.set is changed.mask⟩ flag = if changed = flag then is else s.has flag := by
  by_cases same : changed = flag
  · subst same
    rw [if_pos rfl]
    exact AtomicState.has_set_self (mask_ne_zero changed) s.state is
  · rw [if_neg same]
    exact AtomicState.has_set_other (mask_disjoint same) s.state is

theorem closed_iff {s : TcpState} : s.closed = true ↔ s = init := by
  obtain ⟨⟨value⟩⟩ := s
  simp [closed, AtomicState.isNone, init, AtomicState.none]

@[simp] theorem init_closed : init.closed = true := rfl

@[simp] theorem setClosed_eq (s : TcpState) : s.setClosed = init := rfl

@[simp] theorem has_init (flag : TcpFlag) : init.has flag = false := AtomicState.none_has flag.mask

theorem not_closed_of_has {s : TcpState} {flag : TcpFlag} (held : s.has flag = true) :
    s.closed = false := by
  apply Bool.eq_false_iff.mpr
  intro closed
  rw [closed_iff.mp closed, has_init] at held
  exact Bool.false_ne_true held

theorem has_setServer (s : TcpState) (flag : TcpFlag) :
    s.setServer.has flag = decide (flag = .server) := by
  change (TcpState.mk ⟨AtomicState.a⟩).has flag = decide (flag = .server)
  cases flag with
  | server | connected | ready | websocket | selfLive | peerLive | peerActive => decide

theorem has_setConnected (s : TcpState) (flag : TcpFlag) :
    s.setConnected.has flag = decide (flag = .connected) := by
  change (TcpState.mk ⟨AtomicState.b⟩).has flag = decide (flag = .connected)
  cases flag with
  | server | connected | ready | websocket | selfLive | peerLive | peerActive => decide

theorem has_setReady (s : TcpState) (flag : TcpFlag) :
    s.setReady.has flag = if .ready = flag then true else s.has flag :=
  s.has_set true .ready flag

theorem has_setWebsocket (s : TcpState) (flag : TcpFlag) :
    s.setWebsocket.has flag = if .websocket = flag then true else s.has flag :=
  s.has_set true .websocket flag

theorem has_setSelfLive (s : TcpState) (is : Bool) (flag : TcpFlag) :
    (s.setSelfLive is).has flag = if .selfLive = flag then is else s.has flag :=
  s.has_set is .selfLive flag

theorem setPeerLive_true (s : TcpState) :
    s.setPeerLive true = ⟨s.state.set true TcpFlag.peerLive.mask⟩ := rfl

theorem setPeerLive_false (s : TcpState) : s.setPeerLive false =
    ⟨(s.state.set false TcpFlag.peerLive.mask).set false TcpFlag.peerActive.mask⟩ :=
  congrArg TcpState.mk (s.state.del_or AtomicState.f AtomicState.g)

theorem setPeerActive_true (s : TcpState) : s.setPeerActive true =
    ⟨(s.state.set true TcpFlag.peerActive.mask).set true TcpFlag.peerLive.mask⟩ :=
  congrArg TcpState.mk (s.state.add_or AtomicState.g AtomicState.f)

theorem setPeerActive_false (s : TcpState) :
    s.setPeerActive false = ⟨s.state.set false TcpFlag.peerActive.mask⟩ := rfl

/-- Marking the peer live marks nothing else; a mark that it is not live is also one that it
is not active. -/
theorem has_setPeerLive (s : TcpState) (is : Bool) (flag : TcpFlag) :
    (s.setPeerLive is).has flag =
      if .peerLive = flag then is else if .peerActive = flag then is && s.has flag
        else s.has flag := by
  cases is with
  | true =>
      rw [setPeerLive_true, has_set, Bool.true_and, ite_self]
  | false =>
      rw [setPeerLive_false, has_set ⟨s.state.set false TcpFlag.peerLive.mask⟩, has_set,
        Bool.false_and]
      cases flag with
      | server | connected | ready | websocket | selfLive | peerLive | peerActive => rfl

/-- Marking the peer active also marks it live; a mark that it is not active is nothing else. -/
theorem has_setPeerActive (s : TcpState) (is : Bool) (flag : TcpFlag) :
    (s.setPeerActive is).has flag =
      if .peerActive = flag then is else if .peerLive = flag then is || s.has flag
        else s.has flag := by
  cases is with
  | true =>
      rw [setPeerActive_true, has_set ⟨s.state.set true TcpFlag.peerActive.mask⟩, has_set,
        Bool.true_or]
      cases flag with
      | server | connected | ready | websocket | selfLive | peerLive | peerActive => rfl
  | false =>
      rw [setPeerActive_false, has_set, Bool.false_or, ite_self]

/-! A closed connection stays closed when a flag is taken away. -/

@[simp] theorem init_setPeerLive_false : init.setPeerLive false = init :=
  congrArg TcpState.mk (AtomicState.none_del (AtomicState.f ||| AtomicState.g))

@[simp] theorem init_setPeerActive_false : init.setPeerActive false = init :=
  congrArg TcpState.mk (AtomicState.none_del AtomicState.g)

end TcpState

end Cube.Eco.Net
