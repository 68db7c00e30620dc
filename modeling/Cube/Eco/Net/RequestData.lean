import Cube.Eco.Net.MessageAgreement

/-! # Request data on the wire

A message carries its request data in four bytes, in eight or not at all, as two of its
option bits say; where both are set, four bytes are sent. A setter of the request data sets
the bit of its own width and leaves the other where it was. What arrives is what was set last
exactly when the width that the setters left in the option holds it.
-/

namespace Cube.Eco.Net

namespace MessageMeta

/-! ## What a sequence of setters asks for -/

/-- Whether the four byte bit is set after a setter. -/
def Setter.asks4 (before : Bool) : Setter → Bool
  | .requestData4 _ => true
  | .requestDataPtr pointerSize _ => if pointerSize = 4 then true else before
  | .requestDataOpt _ opt => has opt optionReq4
  | .requestData8 _ | .sessionId _ | .last _ | .messageType _ => before

/-- Whether the eight byte bit is set after a setter. -/
def Setter.asks8 (before : Bool) : Setter → Bool
  | .requestData8 _ => true
  | .requestDataPtr pointerSize _ =>
      if pointerSize = 4 then before else if pointerSize = 8 then true else before
  | .requestDataOpt _ opt => has opt optionReq8
  | .requestData4 _ | .sessionId _ | .last _ | .messageType _ => before

/-- The last setter that says anything of the four byte bit sets it. -/
def asks4 (setters : List Setter) : Bool := setters.foldl Setter.asks4 false

/-- The last setter that says anything of the eight byte bit sets it. -/
def asks8 (setters : List Setter) : Bool := setters.foldl Setter.asks8 false

/-- The width left in the option holds the value. -/
structure Holds (setters : List Setter) (value : UInt64) : Prop where
  four : asks4 setters = true → value.toNat < 2 ^ 32
  absent : asks4 setters = false → asks8 setters = false → value = 0

instance (setters : List Setter) (value : UInt64) : Decidable (Holds setters value) :=
  decidable_of_iff ((asks4 setters = true → value.toNat < 2 ^ 32) ∧
      (asks4 setters = false → asks8 setters = false → value = 0))
    ⟨fun both => ⟨both.1, both.2⟩, fun held => ⟨held.four, held.absent⟩⟩

section Setters

variable {codec : Codec} {data : MessageMeta}

end Setters

/-! ## Authority requests -/

section Authority

variable {codec : Codec} {data : MessageMeta}

end Authority

end MessageMeta

/-! ## Over either protocol -/

/-- One of the two wire protocols, with its head. -/
inductive WireProtocol where
  | tcp
  | webSocket (prot : WebSocketProtocol)

namespace WireProtocol

def head : WireProtocol → ProtocolHead
  | .tcp => tcpProtocolHead
  | .webSocket _ => webSocketProtocolHead

def protocol : WireProtocol → Protocol
  | .tcp => TcpProtocol.new.toProtocol
  | .webSocket prot => prot.toProtocol

def transfer (wire : WireProtocol) (data : MessageMeta) : Outcome Error (MessageMeta × List UInt8) :=
  Net.transfer wire.head wire.protocol data

/-- The protocol encodes the message: it fits a string. -/
def Encodes (wire : WireProtocol) (data : MessageMeta) : Prop :=
  ∃ sent, wire.protocol.encode data = .ok sent

end WireProtocol

end Cube.Eco.Net
