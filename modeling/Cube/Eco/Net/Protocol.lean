import Cube.Eco.Net.Net

/-! # Messages, protocol heads and protocols

The parts of a message that both wire protocols carry (`Protocol.h`, `ProtocolHead.h`,
`Codec.h`): the head with its version and category, the meta data with its optional
fields, and the interfaces a wire protocol implements.
-/

namespace Cube.Eco.Net

/-! ## Error codes -/

def eMessageCategory : Int := -1003
def eProtocolParameter : Int := -1100
def ePeerClientClose : Int := -1202

/-! ## Heads -/

def categoryMessage : UInt32 := 0x01
def categoryHeartbeat : UInt32 := 0x02
def categoryEncrypted : UInt32 := 0x10
def categorySession : UInt32 := 0x40

abbrev MessageCategory := UInt16

structure MessageHead where
  version : UInt32
  category : MessageCategory
  deriving DecidableEq, Repr

/-- The head of a wire protocol: how many bytes are read first, how many more they
announce, and what they say about the message. -/
structure ProtocolHead where
  size : UInt32
  maxDataSize : UInt32
  decodeDataSize : (head : List UInt8) → (size : UInt32) → Outcome Error UInt32
  decode : EcoString → Outcome Error MessageHead
  encodeHeartbeat : EcoString → Outcome Error EcoString

/-! ## Message meta data -/

abbrev MessageModel := UInt16
abbrev MessageOption := UInt32
abbrev SessionId := UInt32

def noneSession : SessionId := 0

def optionLast : UInt32 := 0x01
def optionType : UInt32 := 0x02
def optionReq4 : UInt32 := 0x04
def optionReq8 : UInt32 := 0x08
def optionSess : UInt32 := 0x10

/-- A codec, as its encoded message: `get_byte_size` returns its 32-bit length and
`encode` writes exactly that many bytes. -/
structure Codec where
  encoded : List UInt8
  sized : encoded.length < 2 ^ 32
  deriving DecidableEq, Repr

def Codec.getByteSize (codec : Codec) : UInt32 := UInt32.ofNat codec.encoded.length

/-- Resize by the byte size, then encode in place. -/
def Codec.encodeAppend (codec : Codec) (bytes : EcoString) : Outcome Error EcoString :=
  bytes.append codec.encoded

structure MessageMeta where
  category : MessageCategory
  model : MessageModel
  option : MessageOption
  sessionId : UInt32
  messageType : UInt32
  requestData : UInt64
  codec : Option Codec
  deriving DecidableEq, Repr

namespace MessageMeta

/-- `MessageMeta(category)`: all other fields are zero. -/
def ofCategory (category : MessageCategory) : MessageMeta where
  category := category
  model := 0
  option := 0
  sessionId := 0
  messageType := 0
  requestData := 0
  codec := none

def setSessionId (data : MessageMeta) (id : UInt32) : MessageMeta :=
  { data with sessionId := id, option := set data.option optionSess (id != noneSession) }

def setLast (data : MessageMeta) (is : Bool) : MessageMeta :=
  { data with option := set data.option optionLast is }

def setMessageType (data : MessageMeta) (type : UInt32) : MessageMeta :=
  { data with messageType := type, option := add data.option optionType }

/-- `set_request_data(uint32_t)`. -/
def setRequestData4 (data : MessageMeta) (reqData : UInt32) : MessageMeta :=
  { data with requestData := reqData.toUInt64, option := add data.option optionReq4 }

/-- `set_request_data(uint64_t)`. -/
def setRequestData8 (data : MessageMeta) (reqData : UInt64) : MessageMeta :=
  { data with requestData := reqData, option := add data.option optionReq8 }

/-- `set_request_data(const void*)`, by the size of a pointer. -/
def setRequestDataPtr (data : MessageMeta) (pointerSize : Nat) (reqData : UInt64) : MessageMeta :=
  if pointerSize = 4 then data.setRequestData4 reqData.toUInt32
  else if pointerSize = 8 then data.setRequestData8 reqData
  else data

/-- `set_request_data(uint64_t, uint32_t)`: the width flags are those of `opt`. -/
def setRequestDataOpt (data : MessageMeta) (reqData : UInt64) (opt : UInt32) : MessageMeta :=
  { data with
    requestData := reqData
    option := set (set data.option optionReq4 (has opt optionReq4)) optionReq8
      (has opt optionReq8) }

/-- `MessageMeta(codec, session_id, type, encrypted)`. -/
def make (codec : Codec) (sessionId type : UInt32) (encrypted : Bool) : MessageMeta :=
  let category : MessageCategory := categoryMessage.toUInt16
  let category := if encrypted then add16 category categoryEncrypted else category
  let category := if sessionId != noneSession then add16 category categorySession else category
  { ((ofCategory category).setSessionId sessionId).setMessageType type with codec := some codec }

end MessageMeta

/-- A wire protocol: the meta data and the payload of a received message, and the bytes
of a message to send with the offset they start at. -/
structure Protocol where
  version : UInt32
  decode : MessageMeta → EcoString → Outcome Error (MessageMeta × Bytes × EcoString)
  encode : MessageMeta → Outcome Error (EcoString × UInt32)

end Cube.Eco.Net
