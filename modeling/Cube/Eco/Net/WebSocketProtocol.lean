import Cube.Lib.BigEndian
import Cube.Eco.Net.MessageBody

/-! # The WebSocket protocol

`WebSocketProtocol.h`: a frame head of 2 bytes, an extended length of 0, 2 or 8 bytes and an
optional masking key, then the version, the category and the message body. The encoder
reserves the longest head and writes the head it needs right before the key.
-/

namespace Cube.Eco.Net

def websocketFrameBinary : UInt8 := 0x2
def websocketFrameClose : UInt8 := 0x8

/-- `eco_masking_key`, "#2^1". -/
def ecoMaskingKey : List UInt8 := [0x23, 0x32, 0x5E, 0x31]

namespace WebSocketProtocolHead

def sizeWsHead : UInt32 := 2
def sizeWsLen2 : UInt32 := 2
def sizeWsLen8 : UInt32 := 8
def sizeWsMaskKey : UInt32 := 4
def maxUint16 : UInt32 := 0xFFFF

/-! ## Decoding -/

def getPayloadLenSize (payloadLen : UInt8) : Nat :=
  if payloadLen < 126 then 0
  else if payloadLen = 126 then 2
  else if payloadLen = 127 then 8
  else 0

/-- What `decode_head` finds at the start of a frame; `pos` is where it stops. -/
structure FrameHead where
  fin : Bool
  frame : UInt8
  payloadLen : UInt32
  mask : Bool
  pos : Nat
  deriving DecidableEq, Repr

def decodeHead (head : List UInt8) (size : UInt32) : Outcome Error FrameHead := do
  let first ← Buffer.read head 0
  let second ← Buffer.read head 1
  let fin := decide (first >>> 7 > 0)
  let frame := first &&& 0x0F
  let mask := decide (second >>> 7 > 0)
  let payloadLen := second &&& 0x7F
  let lenEnd := getPayloadLenSize payloadLen + 2
  if size.toNat < lenEnd then
    .reject ⟨-1, "decode data size fail, head size too small: " ++ toString size ++
      " payload len:" ++ toString payloadLen⟩
  else if payloadLen = 126 then do
    let str ← Buffer.slice head 2 2
    return ⟨fin, frame, (ntoh16 str).toUInt32, mask, lenEnd⟩
  else if payloadLen = 127 then do
    let str ← Buffer.slice head 2 8
    let v := ntoh64 str
    if v >>> 32 > 0 then
      .reject ⟨-1, "decode data size fail, 'payload len > uint32_t': " ++ toString v⟩
    else return ⟨fin, frame, v.toUInt32, mask, lenEnd⟩
  else return ⟨fin, frame, payloadLen.toUInt32, mask, lenEnd⟩

/-- The adjustment for what the head holds besides the frame head: two bytes of a short
payload, or the two bytes of an extended length. The last case is never reached, since the
one before it takes every payload from 126 on. -/
def adjustDataSize (dataSize payloadLen : UInt32) : UInt32 :=
  if payloadLen < 126 then dataSize - 2
  else if payloadLen ≥ 126 then dataSize + 0
  else if payloadLen > maxUint16 then dataSize + 6
  else dataSize

def decodeDataSize (head : List UInt8) (size : UInt32) : Outcome Error UInt32 := do
  let found ← decodeHead head size
  if found.frame = websocketFrameClose then
    .reject ⟨ePeerClientClose, "web client close this peer."⟩
  else
    let dataSize := if found.mask then found.payloadLen + 4 else found.payloadLen
    return adjustDataSize dataSize found.payloadLen

def decode (bytes : EcoString) : Outcome Error MessageHead := do
  let found ← decodeHead bytes.content bytes.size
  if found.mask then
    let maskingKey ← Buffer.slice bytes.content found.pos sizeWsMaskKey.toNat
    let pos := found.pos + sizeWsMaskKey.toNat
    let version ← bytes.get pos
    let versionKey ← Buffer.read maskingKey 0
    let category ← bytes.get (pos + 1)
    let categoryKey ← Buffer.read maskingKey 1
    return ⟨charToUInt32 (version ^^^ versionKey), charToUInt16 (category ^^^ categoryKey)⟩
  else
    let version ← bytes.get found.pos
    let category ← bytes.get (found.pos + 1)
    return ⟨charToUInt32 version, charToUInt16 category⟩

/-- `mask_data`: everything from `start` on, whose size is computed in 32 bits. -/
def maskData (bytes : EcoString) (start : UInt32) (maskingKey : List UInt8) :
    Outcome Error EcoString := do
  let size := bytes.size - start
  let content ← Masking.maskInPlace maskingKey start.toNat size.toNat 0 bytes.content
  EcoString.ofContent content

/-- Unmask a frame in place; the position is that of its payload. -/
def unmask (bytes : EcoString) : Outcome Error (EcoString × Nat) := do
  let found ← decodeHead bytes.content bytes.size
  if found.mask then
    let maskingKey ← Buffer.slice bytes.content found.pos sizeWsMaskKey.toNat
    let headEnd := found.pos + sizeWsMaskKey.toNat
    let bytes ← maskData bytes (UInt32.ofNat headEnd) maskingKey
    return (bytes, headEnd)
  else return (bytes, found.pos)

/-! ## Encoding -/

def encodeHeartbeat (bytes : EcoString) : Outcome Error EcoString := do
  let bytes ← bytes.append (List.replicate sizeWsHead.toNat 0)
  let bytes ← bytes.assign 1 2
  let bytes ← bytes.append [0xFF]
  bytes.append [categoryHeartbeat.toUInt8]

/-- The longest head, which the encoder reserves. -/
def wsHeadSize (category : MessageCategory) : UInt32 :=
  let result := sizeWsHead
  let result := if has16 category categoryEncrypted then result + sizeWsMaskKey else result
  result + sizeWsLen8

def preEncodeAppend (bytes : EcoString) (category : MessageCategory) :
    Outcome Error EcoString := do
  let bytes ← bytes.append (List.replicate sizeWsHead.toNat 0)
  let bytes ← bytes.assign 0 websocketFrameBinary
  let optcode ← bytes.get 0
  let bytes ← bytes.assign 0 (optcode ||| 0x80)
  let bytes ← bytes.append (List.replicate sizeWsLen8.toNat 0)
  if has16 category categoryEncrypted then
    bytes.append (List.replicate sizeWsMaskKey.toNat 0)
  else return bytes

/-- The frame head in front of the key or of the data; it starts where it has to. -/
def encodePayloadLen (bytes : EcoString) (dataSize : UInt32) :
    Outcome Error (EcoString × Nat) :=
  if dataSize < 126 then do
    let dataStart := sizeWsLen8.toNat
    let optcode ← bytes.get 0
    let bytes ← bytes.assign dataStart optcode
    let bytes ← bytes.assign (dataStart + 1) dataSize.toUInt8
    return (bytes, dataStart)
  else if dataSize ≤ maxUint16 then do
    let dataStart := (sizeWsLen8 - sizeWsLen2).toNat
    let optcode ← bytes.get 0
    let bytes ← bytes.assign dataStart optcode
    let bytes ← bytes.assign (dataStart + 1) 126
    let bytes ← bytes.copyTo (dataStart + sizeWsLen2.toNat) (hton16 dataSize.toUInt16)
    return (bytes, dataStart)
  else do
    let bytes ← bytes.assign 1 127
    let bytes ← bytes.copyTo sizeWsLen2.toNat (hton64 dataSize.toUInt64)
    return (bytes, 0)

/-- Write the head and mask the data; the result is where the frame starts. -/
def encodeMask (bytes : EcoString) (category : MessageCategory) :
    Outcome Error (EcoString × UInt32) := do
  let dataSize := bytes.size - wsHeadSize category
  let (bytes, dataStart) ← encodePayloadLen bytes dataSize
  let pos := sizeWsHead + sizeWsLen8
  if has16 category categoryEncrypted then
    let payloadLen ← bytes.get (dataStart + 1)
    let bytes ← bytes.assign (dataStart + 1) (payloadLen ||| 0x80)
    let bytes ← bytes.copyTo pos.toNat ecoMaskingKey
    let pos := pos + sizeWsMaskKey
    let bytes ← maskData bytes pos ecoMaskingKey
    return (bytes, UInt32.ofNat dataStart)
  else return (bytes, UInt32.ofNat dataStart)

end WebSocketProtocolHead

namespace WebSocketProtocolHeadEx

def sizeVersion : UInt32 := 1
def sizeCategory : UInt32 := 1

/-- The frame head with the version and the category, of a short frame without a mask. -/
def size : UInt32 := WebSocketProtocolHead.sizeWsHead + sizeVersion + sizeCategory

def preSize (category : MessageCategory) : UInt32 :=
  let result := size
  let result :=
    if has16 category categoryEncrypted then result + WebSocketProtocolHead.sizeWsMaskKey
    else result
  result + WebSocketProtocolHead.sizeWsLen8

def preEncodeAppend (bytes : EcoString) (version : UInt8) (category : MessageCategory) :
    Outcome Error EcoString := do
  let bytes ← WebSocketProtocolHead.preEncodeAppend bytes category
  let bytes ← bytes.append [version]
  bytes.append [category.toUInt8]

def decode (bytes : EcoString) : Outcome Error (EcoString × Nat) := do
  let (bytes, headEnd) ← WebSocketProtocolHead.unmask bytes
  return (bytes, headEnd + sizeVersion.toNat + sizeCategory.toNat)

end WebSocketProtocolHeadEx

/-- `WebSocketProtocolHeadEx` as a protocol head. -/
def webSocketProtocolHead : ProtocolHead where
  size := WebSocketProtocolHeadEx.size
  maxDataSize := WebSocketProtocolHead.maxUint16
  decodeDataSize := WebSocketProtocolHead.decodeDataSize
  decode := WebSocketProtocolHead.decode
  encodeHeartbeat := WebSocketProtocolHead.encodeHeartbeat

/-- `WebSocketProtocol(mask)`. -/
structure WebSocketProtocol where
  mask : Bool

namespace WebSocketProtocol

def version : UInt32 := 1

def decode (data : MessageMeta) (bytes : EcoString) :
    Outcome Error (MessageMeta × Bytes × EcoString) := do
  let (bytes, metaPos) ← WebSocketProtocolHeadEx.decode bytes
  let (data, pos) ← decodeMeta false bytes metaPos data
  return (data, ⟨pos, bytes.size - UInt32.ofNat pos⟩, bytes)

/-- The category sent: its encrypted flag says whether the frame is masked. -/
def sentCategory (prot : WebSocketProtocol) (data : MessageMeta) : MessageCategory :=
  set16 data.category categoryEncrypted prot.mask

/-- A message without a codec is a null pointer dereferenced. -/
def encode (prot : WebSocketProtocol) (data : MessageMeta) :
    Outcome Error (EcoString × UInt32) :=
  match data.codec with
  | none => .fault
  | some codec => do
      let category := prot.sentCategory data
      let byteSize := WebSocketProtocolHeadEx.preSize category +
        (metaSize false data + codec.getByteSize)
      let bytes ← EcoString.empty.reserve byteSize
      let bytes ← WebSocketProtocolHeadEx.preEncodeAppend bytes version.toUInt8 category
      let bytes ← appendMeta false bytes data
      let bytes ← codec.encodeAppend bytes
      WebSocketProtocolHead.encodeMask bytes category

/-- `WebSocketProtocol` as a protocol. -/
def toProtocol (prot : WebSocketProtocol) : Protocol where
  version := version
  decode := decode
  encode := prot.encode

end WebSocketProtocol

end Cube.Eco.Net
