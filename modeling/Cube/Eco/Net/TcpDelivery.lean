import Cube.Eco.Net.TcpFraming
import Cube.Eco.Net.TcpRoundTrip

/-! # Messages from one peer to another

A peer sends encoded messages one after the other. The receive loop of the other peer cuts them
apart and copies every head as text, which may zero the two bytes with the size; nothing behind the
loop reads them again.
-/

namespace Cube.Eco.Net.TcpProtocol

/-- A message that survives the wire, with its encoding. -/
structure Sent extends Encoded where
  sendable : Sendable data

/-- What the receive loop has handed on is the message: its head is that of the message, and what
follows is decoded, with whatever the meta data was before, to the meta data and the payload. -/
structure Delivered (sent : Sent) (received : EcoString) : Prop where
  length : received.content.length = sent.bytes.content.length
  head : TcpProtocolHead.decode received = TcpProtocolHead.decode sent.bytes
  body : ∀ initial, ∃ read view, new.decode initial received = .ok (read, view, received) ∧
    Restores true sent.data read ∧ view.of received = sent.codec.encoded

end Cube.Eco.Net.TcpProtocol
