import Cube.Eco.Net.TcpRoundTrip
import Cube.Eco.Net.WebSocketRoundTrip

/-! # Agreement of the two wire protocols

A message put together by the constructor and the setters of `MessageMeta` is sent over
either protocol. The receivers agree on everything but the session: the WebSocket protocol
sends the option bit of the session without its field.
-/

namespace Cube.Eco.Net

namespace MessageMeta

/-- A call of one of the setters. -/
inductive Setter where
  | sessionId (id : UInt32)
  | last (is : Bool)
  | messageType (type : UInt32)
  | requestData4 (reqData : UInt32)
  | requestData8 (reqData : UInt64)
  | requestDataPtr (pointerSize : Nat) (reqData : UInt64)
  | requestDataOpt (reqData : UInt64) (opt : UInt32)
  deriving DecidableEq, Repr

def Setter.apply (data : MessageMeta) : Setter → MessageMeta
  | .sessionId id => data.setSessionId id
  | .last is => data.setLast is
  | .messageType type => data.setMessageType type
  | .requestData4 reqData => data.setRequestData4 reqData
  | .requestData8 reqData => data.setRequestData8 reqData
  | .requestDataPtr pointerSize reqData => data.setRequestDataPtr pointerSize reqData
  | .requestDataOpt reqData opt => data.setRequestDataOpt reqData opt

/-- The types that 16 bits hold. -/
def Setter.Fits : Setter → Prop
  | .messageType type => type.toNat ≤ 0xFFFF
  | _ => True

instance (setter : Setter) : Decidable setter.Fits := by
  unfold Setter.Fits
  split <;> infer_instance

/-- What either protocol can carry: a payload, under a message category and known option
bits. -/
structure Carried (codec : Codec) (data : MessageMeta) : Prop where
  model : data.model = 0
  option : data.option.toNat < 2 ^ 5
  codec : data.codec = some codec
  category : has16 data.category categoryMessage = true

/-- What holds of every message that is built so: its option bits are the five known ones,
and that of the session says whether there is one. -/
structure Built (codec : Codec) (data : MessageMeta) : Prop where
  model : data.model = 0
  option : data.option.toNat < 2 ^ 5
  session : has data.option optionSess = (data.sessionId != noneSession)
  messageType : data.messageType.toNat ≤ 0xFFFF
  codec : data.codec = some codec
  category : has16 data.category categoryMessage = true

section Setters

variable {codec : Codec} {data : MessageMeta}

theorem Built.carried (built : Built codec data) : Carried codec data where
  model := built.model
  option := built.option
  codec := built.codec
  category := built.category

end Setters

/-- The session id given last, by the constructor or by a setter. -/
def lastSessionId (sessionId : UInt32) (setters : List Setter) : UInt32 :=
  setters.foldl (fun id setter => match setter with
    | .sessionId id => id
    | _ => id) sessionId

end MessageMeta

/-! ## Sending over either protocol -/

/-- A message sent and received: it is encoded, the bytes from its start on are what the
other side has, and they are decoded into meta data of their category. -/
def transfer (head : ProtocolHead) (prot : Protocol) (data : MessageMeta) :
    Outcome Error (MessageMeta × List UInt8) := do
  let (bytes, start) ← prot.encode data
  let received ← EcoString.ofContent (bytes.content.drop start.toNat)
  let found ← head.decode received
  let (read, view, after) ← prot.decode (.ofCategory found.category) received
  return (read, view.of after)

section Agreement

variable {codec : Codec} {data : MessageMeta}

end Agreement

end Cube.Eco.Net
