import Cube.Eco.Net.MessageBody

/-! # The TCP protocol

`TcpProtocol.h`: a four-byte head (version, category, 16-bit data size), then the body.
The crypt and checksum plug-ins are pointers that the constructor leaves null.
-/

namespace Cube.Eco.Net

def eMessageChecksum : Int := -1004
def eMessageEncode : Int := -1006

def categoryChecksum : UInt32 := 0x08

namespace TcpProtocolHead

def sizeHead : UInt32 := 4
def posVersion : Nat := 0
def posCategory : Nat := 1
def posSize : Nat := 2

def decodeDataSize (bytes : List UInt8) (_size : UInt32) : Outcome Error UInt32 := do
  let str ← Buffer.slice bytes posSize 2
  return (ntoh16 str).toUInt32

def decode (bytes : EcoString) : Outcome Error MessageHead := do
  let version ← bytes.get posVersion
  let category ← bytes.get posCategory
  let head : MessageHead := ⟨charToUInt32 version, charToUInt16 category⟩
  if !has16 head.category categoryMessage && !has16 head.category categoryHeartbeat then
    .reject ⟨eMessageCategory, "message category is invalid: " ++ toString head.category⟩
  else return head

def encodeAppend (bytes : EcoString) (head : MessageHead) : Outcome Error EcoString := do
  let bytes ← bytes.append (List.replicate sizeHead.toNat 0)
  let bytes ← bytes.assign posVersion head.version.toUInt8
  bytes.assign posCategory head.category.toUInt8

/-- Fill in the data size, truncated to 16 bits; the start offset is always zero. -/
def encodeDataSize (bytes : EcoString) : Outcome Error (EcoString × UInt32) := do
  let bytes ← bytes.copyTo posSize (hton16 (bytes.size - sizeHead).toUInt16)
  return (bytes, 0)

def encodeHeartbeat (bytes : EcoString) : Outcome Error EcoString :=
  encodeAppend bytes ⟨0xFFFFFFFF, categoryHeartbeat.toUInt16⟩

end TcpProtocolHead

/-- `TcpProtocolHead` as a protocol head. -/
def tcpProtocolHead : ProtocolHead where
  size := TcpProtocolHead.sizeHead
  maxDataSize := 0xFFFF
  decodeDataSize := TcpProtocolHead.decodeDataSize
  decode := TcpProtocolHead.decode
  encodeHeartbeat := TcpProtocolHead.encodeHeartbeat

/-- `Crypt`: the encrypted string from a position on, null on failure. -/
structure Crypt where
  getByteSize : UInt32 → UInt32
  encode : EcoString → (start : UInt32) → Option EcoString
  decode : EcoString → (start size : UInt32) → Except Error EcoString

/-- `Check`: a checksum appended to the message and verified on receipt. -/
structure Check where
  getByteSize : UInt32
  encode : EcoString → Outcome Error EcoString
  decode : EcoString → Bool

structure TcpProtocol where
  crypt : Option Crypt
  check : Option Check

namespace TcpProtocol

/-- `TcpProtocol()`. -/
def new : TcpProtocol := ⟨none, none⟩

def version : UInt32 := 1

/-- The plug-in that a category flag selects, when it is installed. -/
def selected {plugin : Type} (category : MessageCategory) (flag : UInt32)
    (installed : Option plugin) : Option plugin :=
  if has16 category flag then installed else none

/-- Verify the checksum; the size it takes at the end of the message. -/
def verify (check : Option Check) (bytes : EcoString) : Outcome Error UInt32 :=
  match check with
  | none => .ok 0
  | some check =>
      if check.decode bytes then .ok check.getByteSize
      else .reject ⟨eMessageChecksum, "checksum bytes size error or checksum match fail."⟩

def decrypt (crypt : Option Crypt) (bytes : EcoString) (checkSumSize : UInt32) :
    Outcome Error EcoString :=
  match crypt with
  | none => .ok bytes
  | some crypt =>
      match crypt.decode bytes TcpProtocolHead.sizeHead
        (bytes.size - (TcpProtocolHead.sizeHead + checkSumSize)) with
      | .ok decrypted => .ok decrypted
      | .error e => .reject e

def decode (prot : TcpProtocol) (data : MessageMeta) (bytes : EcoString) :
    Outcome Error (MessageMeta × Bytes × EcoString) := do
  let checkSumSize ← verify (selected data.category categoryChecksum prot.check) bytes
  let bytes ← decrypt (selected data.category categoryEncrypted prot.crypt) bytes checkSumSize
  let (data, pos) ← decodeMeta true bytes TcpProtocolHead.sizeHead.toNat data
  return (data, ⟨pos, bytes.size - UInt32.ofNat pos - checkSumSize⟩, bytes)

def encrypt (crypt : Option Crypt) (bytes : EcoString) : Outcome Error EcoString :=
  match crypt with
  | none => .ok bytes
  | some crypt =>
      match crypt.encode bytes TcpProtocolHead.sizeHead with
      | some encrypted => .ok encrypted
      | none => .reject ⟨eMessageEncode, "crypt message fail."⟩

def appendChecksum (check : Option Check) (bytes : EcoString) : Outcome Error EcoString :=
  match check with
  | none => .ok bytes
  | some check => check.encode bytes

/-- The size reserved for a message, computed in 32 bits. -/
def byteSize (prot : TcpProtocol) (data : MessageMeta) (codec : Codec) : UInt32 :=
  let size := metaSize true data + codec.getByteSize
  let size := match selected data.category categoryEncrypted prot.crypt with
    | some crypt => crypt.getByteSize size
    | none => size
  let size := size + TcpProtocolHead.sizeHead
  match selected data.category categoryChecksum prot.check with
  | some check => size + check.getByteSize
  | none => size

/-- A message without a codec violates the assertion the function begins with. -/
def encode (prot : TcpProtocol) (data : MessageMeta) : Outcome Error (EcoString × UInt32) :=
  match data.codec with
  | none => .fault
  | some codec => do
      let bytes ← EcoString.empty.reserve (byteSize prot data codec)
      let bytes ← TcpProtocolHead.encodeAppend bytes ⟨version, data.category⟩
      let bytes ← appendMeta true bytes data
      let bytes ← codec.encodeAppend bytes
      let bytes ← encrypt (selected data.category categoryEncrypted prot.crypt) bytes
      let bytes ← appendChecksum (selected data.category categoryChecksum prot.check) bytes
      TcpProtocolHead.encodeDataSize bytes

/-- `TcpProtocol` as a protocol. -/
def toProtocol (prot : TcpProtocol) : Protocol where
  version := version
  decode := prot.decode
  encode := prot.encode

/-! ## Without plug-ins -/

/-- The body of a message: its meta data and its payload. -/
def body (data : MessageMeta) (codec : Codec) : List UInt8 := metaBytes true data ++ codec.encoded

/-- The message as it stands on the wire. -/
def wire (data : MessageMeta) (codec : Codec) : List UInt8 :=
  1 :: data.category.toUInt8 ::
    (hton16 (UInt16.ofNat (body data codec).length) ++ body data codec)

theorem length_wire (data : MessageMeta) (codec : Codec) :
    (wire data codec).length = 4 + (body data codec).length := by
  simp only [wire, List.length_cons, List.length_append, length_hton16]
  omega

theorem selected_none {plugin : Type} (category : MessageCategory) (flag : UInt32) :
    selected category flag (none : Option plugin) = none := by
  unfold selected
  split <;> rfl

private theorem reserve_new {data : MessageMeta} {codec : Codec}
    (fits : (wire data codec).length ≤ maxStringSize) :
    (EcoString.empty.reserve (byteSize new data codec) : Outcome Error EcoString) =
      .ok EcoString.empty := by
  rw [length_wire, body, List.length_append, ← metaSize_toNat, maxStringSize] at fits
  have size : (byteSize new data codec + 1).toNat =
      (metaSize true data).toNat + codec.encoded.length + 4 + 1 := by
    simp only [byteSize, new, selected_none, UInt32.toNat_add, Codec.getByteSize,
      UInt32.toNat_ofNat', TcpProtocolHead.sizeHead, UInt32.reduceToNat]
    omega
  have nonzero : byteSize new data codec + 1 ≠ 0 := by
    intro zero
    rw [zero] at size
    simp at size
  rw [EcoString.reserve, if_neg nonzero]

private theorem encodeDataSize_of_content {bytes : EcoString} {version category : UInt8}
    {rest : List UInt8} (content : bytes.content = version :: category :: 0 :: 0 :: rest) :
    TcpProtocolHead.encodeDataSize bytes = (EcoString.ofContent
      (version :: category :: (hton16 (UInt16.ofNat rest.length) ++ rest)) >>= fun bytes =>
        .ok (bytes, 0)) := by
  have size : (bytes.size - TcpProtocolHead.sizeHead).toUInt16 = UInt16.ofNat rest.length := by
    apply UInt16.toNat_inj.mp
    have length := congrArg List.length content
    have fits := bytes.fits
    simp only [List.length_cons] at length
    simp only [UInt32.toNat_toUInt16, UInt32.toNat_sub, EcoString.size_toNat,
      TcpProtocolHead.sizeHead, UInt32.reduceToNat, UInt16.toNat_ofNat', maxStringSize] at fits ⊢
    omega
  have patched : Buffer.patch bytes.content TcpProtocolHead.posSize
      (hton16 (bytes.size - TcpProtocolHead.sizeHead).toUInt16) = (.ok
        ([version, category] ++ (hton16 (UInt16.ofNat rest.length) ++ rest)) :
          Outcome Error (List UInt8)) := by
    rw [size]
    have shape : bytes.content = [version, category] ++ ([0, 0] ++ rest) := content
    rw [shape]
    exact Buffer.patch_append rfl (length_hton16 _).symm
  rw [TcpProtocolHead.encodeDataSize, EcoString.copyTo, patched]
  rfl

/-- **What encode sends.** The whole message, if a string can hold it. -/
theorem encode_new {data : MessageMeta} {codec : Codec} (coded : data.codec = some codec) :
    new.encode data =
      (EcoString.ofContent (wire data codec) >>= fun bytes => .ok (bytes, 0)) := by
  have head : TcpProtocolHead.encodeAppend EcoString.empty ⟨version, data.category⟩ =
      .ok ⟨[1, data.category.toUInt8, 0, 0], show 4 ≤ maxStringSize by decide⟩ := rfl
  have unfolded : new.encode data = (EcoString.empty.reserve (byteSize new data codec) >>=
      fun bytes => TcpProtocolHead.encodeAppend bytes ⟨version, data.category⟩ >>=
        fun bytes => (bytes.append (body data codec) >>=
          TcpProtocolHead.encodeDataSize : Outcome Error (EcoString × UInt32))) := by
    simp only [encode, coded, new, selected_none, encrypt, appendChecksum, Codec.encodeAppend,
      appendMeta_eq, Outcome.ok_bind, body, ← EcoString.append_append, Outcome.bind_assoc]
  by_cases fits : (wire data codec).length ≤ maxStringSize
  · have room : ([1, data.category.toUInt8, 0, 0] ++ body data codec).length ≤ maxStringSize := by
      rw [length_wire] at fits
      exact List.length_append ▸ fits
    rw [unfolded, reserve_new fits, Outcome.ok_bind, head, Outcome.ok_bind, EcoString.append,
      EcoString.ofContent_of_fits room, Outcome.ok_bind]
    exact encodeDataSize_of_content rfl
  · have large : ¬ ([1, data.category.toUInt8, 0, 0] ++ body data codec).length ≤
        maxStringSize := by
      rw [length_wire] at fits
      exact List.length_append ▸ fits
    rw [unfolded, EcoString.ofContent_of_not_fits fits, Outcome.fault_bind]
    unfold EcoString.reserve
    split
    · rfl
    · rw [Outcome.ok_bind, head, Outcome.ok_bind, EcoString.append,
        EcoString.ofContent_of_not_fits large, Outcome.fault_bind]

theorem encode_new_eq_ok {data : MessageMeta} {bytes : EcoString} {start : UInt32} :
    new.encode data = .ok (bytes, start) ↔
      ∃ codec, data.codec = some codec ∧ bytes.content = wire data codec ∧ start = 0 := by
  constructor
  · intro encoded
    cases coded : data.codec with
    | none =>
        rw [encode, coded] at encoded
        cases encoded
    | some codec =>
        rw [encode_new coded, Outcome.bind_eq_ok] at encoded
        obtain ⟨held, content, same⟩ := encoded
        cases same
        exact ⟨codec, rfl, EcoString.ofContent_eq_ok.mp content, rfl⟩
  · rintro ⟨codec, coded, content, rfl⟩
    rw [encode_new coded, EcoString.ofContent_eq_ok.mpr content, Outcome.ok_bind]

end TcpProtocol

end Cube.Eco.Net
