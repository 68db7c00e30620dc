import Cube.Eco.Net.WebSocketFrame

/-! # The WebSocket protocol there and back

The encoder writes one well-formed frame, whichever form its length takes, and the decoder
restores from it what was sent. A category travels as one signed byte, whose encrypted flag
says whether the frame is masked.
-/

namespace Cube.Eco.Net

namespace WebSocketProtocolHead

/-! ## The frame sent -/

/-- What stands in front of the body before the head is written. -/
def reserved (mask : Bool) : List UInt8 :=
  [0x82, 0, 0, 0, 0, 0, 0, 0, 0, 0] ++ if mask then [0, 0, 0, 0] else []

section Head

variable {bytes : EcoString} {dataSize : UInt32} {back : List UInt8}
  (content : bytes.content = [0x82, 0, 0, 0, 0, 0, 0, 0, 0, 0] ++ back)
include content

end Head

end WebSocketProtocolHead

namespace WebSocketProtocol

open WebSocketProtocolHead

/-- The body of a frame: the version, the category, the meta data and the payload. -/
def body (prot : WebSocketProtocol) (data : MessageMeta) (codec : Codec) : List UInt8 :=
  1 :: (prot.sentCategory data).toUInt8 :: (metaBytes false data ++ codec.encoded)

/-- The buffer a message takes while it is encoded. -/
def buffer (prot : WebSocketProtocol) (data : MessageMeta) (codec : Codec) : List UInt8 :=
  reserved prot.mask ++ prot.body data codec

end WebSocketProtocol

end Cube.Eco.Net
