import Cube.Lib.Interleaving

/-! # Sending over a connection

`AsyncSend`, `BeginWrite`, `HandleWrite` and `Close` of `WnConnection.h`, of a connection that
sends packets in frames. The list of packets, the writing flag and the packet being written are
only touched with `m_oWritingMutex` held: what a thread does between getting the mutex and giving
it back is one step.
-/

namespace Cube.Fndnet

variable {ι π : Type}

/-- A packet that is sent. The list holds the packet alone; the priority says how it got there. -/
structure Sending (π : Type) where
  packet : π
  blHighPriority : Bool
  deriving DecidableEq, Repr

/-- `ENU_ASYNSEND_RESULT`, less the results of connections that send raw data. -/
inductive AsynSendResult where
  | success
  | noConnect
  deriving DecidableEq, Repr

/-- A connection, with the writes of its socket that have not completed, what was written so far,
and the answers of `AsyncSend`: those of success are in the order in which the calls got the
mutex. -/
structure Connection (π : Type) where
  blConnected : Bool
  blWriting : Bool
  sendPacketList : List (Sending π)
  apPacket : Option (Sending π)
  writes : List (Sending π)
  written : List (Sending π)
  answers : List (Sending π × AsynSendResult)
  deriving DecidableEq

namespace Connection

/-- A connection that has just been accepted or has just connected. -/
def accepted : Connection π := ⟨true, false, [], none, [], [], []⟩

variable (connection : Connection π)

def answer (sending : Sending π) (result : AsynSendResult) : Connection π :=
  { connection with answers := connection.answers ++ [(sending, result)] }

/-- `BeginWrite`; its callers have seen to it that there is a packet. -/
def beginWrite : Connection π :=
  match connection.sendPacketList with
  | [] => connection
  | sending :: sendPacketList =>
      { connection with
        apPacket := some sending
        sendPacketList
        writes := connection.writes ++ [sending] }

def push (sending : Sending π) : Connection π :=
  { connection with
    sendPacketList :=
      if sending.blHighPriority then sending :: connection.sendPacketList
      else connection.sendPacketList ++ [sending] }

/-- What `AsyncSend` does while it holds the mutex. -/
def send (sending : Sending π) : Connection π :=
  let connection := connection.push sending
  if connection.blWriting then connection else beginWrite { connection with blWriting := true }

/-- What `HandleWrite` does while it holds the mutex, after a write without an error. -/
def next : Connection π :=
  if connection.sendPacketList.isEmpty then { connection with blWriting := false }
  else connection.beginWrite

/-- The socket completes its first write. -/
def completed (failed : Bool) : Option (Connection π) :=
  match connection.writes with
  | [] => none
  | sending :: writes =>
      some { connection with
        writes
        written := if failed then connection.written else connection.written ++ [sending] }

end Connection

/-! ## The threads of a connection -/

/-- The calls: of a sender, of the io service once a write has completed, and of `Close`. -/
inductive ConnectionCall (π : Type) where
  | asyncSend (sending : Sending π)
  | complete (failed : Bool)
  | close
  deriving DecidableEq

/-- Where a call stands: before `IsConnected`, or before the mutex. -/
inductive ConnectionPoint (π : Type) where
  | asyncSend (sending : Sending π)
  | send (sending : Sending π)
  | handleWrite (failed : Bool)
  | next
  | clear
  | close
  | returned
  deriving DecidableEq

namespace Connection

/-- One step of a call. -/
def advance (connection : Connection π) :
    ConnectionPoint π → Connection π × Option (ConnectionPoint π)
  | .asyncSend sending =>
      if connection.blConnected then (connection, some (.send sending))
      else (connection.answer sending .noConnect, none)
  | .send sending => ((connection.send sending).answer sending .success, none)
  | .handleWrite failed =>
      if !connection.blConnected then (connection, some .clear)
      else if !failed then (connection, some .next)
      else ({ connection with blConnected := false }, some .clear)
  | .next => (connection.next, none)
  | .clear => ({ connection with sendPacketList := [] }, none)
  | .close => ({ connection with blConnected := false }, none)
  | .returned => (connection, none)

/-- A completion is handed to a thread only when a write has completed. -/
def enter (connection : Connection π) : ConnectionCall π → Connection π × ConnectionPoint π
  | .asyncSend sending => (connection, .asyncSend sending)
  | .complete failed =>
      match connection.completed failed with
      | none => (connection, .returned)
      | some connection => (connection, .handleWrite failed)
  | .close => (connection, .close)

/-- Any number of threads that send, and those of the io service. -/
def program : Interleaving.Program ι (Connection π) (ConnectionCall π) (ConnectionPoint π) Unit where
  enter _ := enter
  advance _ connection point _ := connection.advance point

/-- What happens next at a connection. -/
abbrev Choice (ι π : Type) := Interleaving.Choice ι (ConnectionCall π) Unit

/-- The connection and the threads at it. -/
abbrev Threads (ι π : Type) := Interleaving.Threads ι (Connection π) (ConnectionPoint π)

end Connection

end Cube.Fndnet
