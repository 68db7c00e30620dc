import Cube.Eco.Net.TcpProtocol
import Cube.Eco.Net.WebSocketFraming

/-! # The content of received messages

A received message is put together from the head, which `on_read_head` copies as text, and
the data, which is read in place. Whether it is the frame as it was sent depends on the
zero bytes of its first four bytes, for both protocols.
-/

namespace Cube.Eco.Net

namespace TcpProtocolHead

/-- A frame with any version and category, and a body whose size its head tells. -/
structure Frame where
  version : UInt8
  category : UInt8
  body : List UInt8
  sized : body.length < 2 ^ 16

namespace Frame

variable (frame : Frame)

def front : List UInt8 :=
  frame.version :: frame.category :: hton16 (UInt16.ofNat frame.body.length)

/-- The frame as it stands on the wire. -/
def wire : List UInt8 := frame.front ++ frame.body

theorem announces : ∃ dataSize, decodeDataSize frame.front sizeHead = .ok dataSize ∧
    dataSize.toNat = frame.body.length := by
  have sliced : (Buffer.slice frame.front posSize 2 : Outcome Error _) =
      .ok (hton16 (UInt16.ofNat frame.body.length)) :=
    Buffer.slice_eq_ok.mpr ⟨Nat.le_refl 4, rfl⟩
  refine ⟨(UInt16.ofNat frame.body.length).toUInt32, ?_, ?_⟩
  · rw [decodeDataSize, sliced, Outcome.ok_bind, Outcome.pure_eq, ntoh16_hton16]
  · rw [UInt16.toNat_toUInt32, UInt16.toNat_ofNat_of_lt' frame.sized]

theorem fits : frame.wire.length ≤ maxStringSize := by
  have sized := frame.sized
  have front : frame.front.length = 4 := rfl
  rw [wire, List.length_append, front, maxStringSize]
  omega

end Frame

end TcpProtocolHead

/-- A frame is received as it was sent: the message handed on is the frame, byte for byte,
so that every head and every protocol decodes it alike. -/
def ReceivedAsSent (head : ProtocolHead) (wire rest : List UInt8) : Prop :=
  ∃ data, TcpPeer.readOnce head (wire ++ rest) = .item data ∧ data.content = wire ∧
    ∀ sent : EcoString, sent.content = wire →
      head.decode data = head.decode sent ∧
        ∀ (prot : Protocol) (initial : MessageMeta),
          prot.decode initial data = prot.decode initial sent

/-- Equal bytes decode alike, so only the bytes have to be compared. -/
theorem receivedAsSent_iff {head : ProtocolHead} {wire rest : List UInt8} :
    ReceivedAsSent head wire rest ↔
      ∃ data, TcpPeer.readOnce head (wire ++ rest) = .item data ∧ data.content = wire := by
  constructor
  · intro received
    rcases received with ⟨data, found, content, _⟩
    exact ⟨data, found, content⟩
  · intro received
    rcases received with ⟨data, found, content⟩
    refine ⟨data, found, content, fun sent same => ?_⟩
    cases EcoString.ext (content.trans same.symm)
    exact ⟨rfl, fun _ _ => rfl⟩

/-- **Received as sent.** A TCP frame is received as it was sent exactly when the zero bytes
of its head come last; a WebSocket frame exactly when, besides, the loop takes it whole. -/
theorem received_as_sent_iff (tcpFrame : TcpProtocolHead.Frame)
    (frame : WebSocketProtocolHead.Frame) (rest : List UInt8) :
    (ReceivedAsSent tcpProtocolHead tcpFrame.wire rest ↔ ZerosLast (tcpFrame.wire.take 4)) ∧
    (ReceivedAsSent webSocketProtocolHead frame.wire rest ↔
      WebSocketProtocolHead.Accepted frame.first frame.second ∧
        WebSocketProtocolHead.Counted frame.second frame.payload.length ∧
          ZerosLast (frame.wire.take 4)) := by
  constructor
  · have headed : tcpFrame.front.length = tcpProtocolHead.size.toNat := rfl
    have kept := TcpPeer.readOnce_kept_iff tcpProtocolHead headed tcpFrame.fits rest
    rw [receivedAsSent_iff]
    exact kept.trans (and_iff_right tcpFrame.announces)
  · rw [receivedAsSent_iff]
    by_cases four : 4 ≤ frame.wire.length
    · have headed : (frame.wire.take 4).length = webSocketProtocolHead.size.toNat :=
        List.length_take_of_le four
      have announces := frame.announces_iff four
      by_cases fits : frame.wire.length ≤ maxStringSize
      · rw [← List.take_append_drop 4 frame.wire] at fits
        have kept := TcpPeer.readOnce_kept_iff webSocketProtocolHead headed fits rest
        rw [List.take_append_drop] at kept
        rw [kept, ← and_assoc]
        exact and_congr_left fun _ => announces
      · constructor
        · intro received
          rcases received with ⟨data, _, content⟩
          exact absurd (content ▸ data.fits) fits
        · intro good
          exact absurd (frame.fits_of_accepted good.1) fits
    · constructor
      · intro received
        rcases received with ⟨data, found, content⟩
        have good := (frame.found_sized_iff rest).mp ⟨data, found, congrArg List.length content⟩
        exact absurd (frame.four_le_of_counted good.2) four
      · intro good
        exact absurd (frame.four_le_of_counted good.2.1) four

/-- A masked message of version 1 and category 1 whose key begins with a zero byte. -/
def zeroKeyFrame : WebSocketProtocolHead.Frame where
  first := 0x82
  second := 0x84
  extended := []
  key := [0, 5, 6, 7]
  payload := [1, 4, 6, 7]
  extended_length := by decide
  key_length := by decide
  payload_length := by decide

/-- The key of the frame is altered on receipt, and with it the category. -/
theorem zeroKeyFrame_not_received_as_sent :
    ¬ ReceivedAsSent webSocketProtocolHead zeroKeyFrame.wire [] ∧
      (TcpPeer.receive webSocketProtocolHead zeroKeyFrame.wire).1.map
          WebSocketProtocolHead.decode = [.ok ⟨1, 4⟩] ∧
      WebSocketProtocolHead.decode ⟨zeroKeyFrame.wire, by decide⟩ = .ok ⟨1, 1⟩ := by
  refine ⟨fun received => ?_, by decide, by decide⟩
  rcases received with ⟨data, found, content, _⟩
  have altered : TcpPeer.readOnce webSocketProtocolHead (zeroKeyFrame.wire ++ []) =
      .item ⟨[0x82, 0x84, 0, 0, 6, 7, 1, 4, 6, 7], by decide⟩ := by decide
  cases found.symm.trans altered
  exact absurd content (by decide)

end Cube.Eco.Net
