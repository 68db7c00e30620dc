import Cube.Eco.Net.TcpPeer
import Cube.Eco.Net.TcpProtocol

/-! # Framing of TCP messages

The head announces the length of the body in 16 bits, but nothing on the send path keeps
a body within them, and the receive loop copies the head as text. Both the announced size
and the messages that come out of the loop are characterised for every message that can
be encoded.
-/

namespace Cube.Eco.Net

namespace TcpProtocol

/-- A message together with its successful encoding. -/
structure Encoded where
  data : MessageMeta
  codec : Codec
  bytes : EcoString
  start : UInt32
  coded : data.codec = some codec
  encoded : new.encode data = .ok (bytes, start)

namespace Encoded

/-- The size of the body: the meta data and the payload. -/
def bodySize (message : Encoded) : Nat :=
  (metaSize true message.data).toNat + message.codec.encoded.length

variable (message : Encoded)

theorem content : message.bytes.content = wire message.data message.codec := by
  obtain ⟨codec, coded, content, _⟩ := encode_new_eq_ok.mp message.encoded
  cases message.coded.symm.trans coded
  exact content

theorem length_body : (body message.data message.codec).length = message.bodySize := by
  rw [body, List.length_append, bodySize, metaSize_toNat]

theorem length_content : message.bytes.content.length = 4 + message.bodySize := by
  rw [content, length_wire, length_body]

/-- A body holds at least the model and the option. -/
theorem two_le_bodySize : 2 ≤ message.bodySize := by
  rw [bodySize, metaSize_toNat, metaBytes, List.length_cons, List.length_cons]
  omega

/-- The head of the message. -/
def head : List UInt8 :=
  1 :: message.data.category.toUInt8 :: hton16 (UInt16.ofNat message.bodySize)

theorem length_head : message.head.length = 4 := rfl

theorem content_eq : message.bytes.content = message.head ++ body message.data message.codec := by
  rw [content, head, ← length_body]
  rfl

theorem decodeDataSize_head : TcpProtocolHead.decodeDataSize message.head
    TcpProtocolHead.sizeHead = .ok (UInt16.ofNat message.bodySize).toUInt32 := by
  have sliced : (Buffer.slice message.head TcpProtocolHead.posSize 2 : Outcome Error _) =
      .ok (hton16 (UInt16.ofNat message.bodySize)) :=
    Buffer.slice_eq_ok.mpr ⟨Nat.le_refl 4, rfl⟩
  rw [TcpProtocolHead.decodeDataSize, sliced, Outcome.ok_bind, Outcome.pure_eq, ntoh16_hton16]

/-- The announced size is the size of the body as far as 16 bits can tell. -/
theorem announced_eq_iff :
    (UInt16.ofNat message.bodySize).toUInt32.toNat = message.bodySize ↔
      message.bodySize ≤ 65535 := by
  rw [UInt16.toNat_toUInt32, UInt16.toNat_ofNat']
  omega

theorem announces_iff :
    (∃ dataSize, TcpProtocolHead.decodeDataSize message.head TcpProtocolHead.sizeHead =
      .ok dataSize ∧ dataSize.toNat = (body message.data message.codec).length) ↔
        message.bodySize ≤ 65535 := by
  rw [decodeDataSize_head, length_body]
  constructor
  · rintro ⟨_, ⟨⟩, same⟩
    exact message.announced_eq_iff.mp same
  · intro small
    exact ⟨_, rfl, message.announced_eq_iff.mpr small⟩

/-- One turn of the loop takes the message as a whole exactly when its size is announced. -/
theorem found_sized_iff (rest : List UInt8) :
    (∃ data, TcpPeer.readOnce tcpProtocolHead (message.bytes.content ++ rest) = .item data ∧
      data.content.length = message.bytes.content.length) ↔ message.bodySize ≤ 65535 := by
  have fits := message.bytes.fits
  rw [← announces_iff, content_eq] at *
  constructor
  · rintro ⟨data, found, whole⟩
    exact TcpPeer.announced_of_readOnce message.length_head found whole
  · rintro ⟨dataSize, decoded, whole⟩
    obtain ⟨data, found, content⟩ :=
      TcpPeer.readOnce_frame tcpProtocolHead message.length_head decoded whole fits rest
    refine ⟨data, found, ?_⟩
    rw [content, List.length_append, length_strncpy, ← List.length_append]

/-- The two size bytes, high and low. -/
theorem head_eq (small : message.bodySize ≤ 65535) : message.head =
    [1, message.data.category.toUInt8, UInt8.ofNat (message.bodySize / 256),
      UInt8.ofNat message.bodySize] := by
  have exact_size : (UInt16.ofNat message.bodySize).toNat = message.bodySize := by
    rw [UInt16.toNat_ofNat']
    omega
  rw [head, hton16, exact_size, BigEndian.encode, BigEndian.encode, BigEndian.encode,
    Nat.pow_zero, Nat.div_one, Nat.pow_one]

/-- The size and the category decide whether the head survives being copied as text: a
message below 256 bytes has a zero byte in front of its low size byte. -/
theorem zerosLast_head_iff (small : message.bodySize ≤ 65535) :
    ZerosLast message.head ↔ 256 ≤ message.bodySize ∧ message.data.category.toUInt8 ≠ 0 := by
  have positive := message.two_le_bodySize
  have highZero : UInt8.ofNat (message.bodySize / 256) = 0 ↔ message.bodySize < 256 := by
    rw [← UInt8.toNat_inj, UInt8.toNat_ofNat', UInt8.toNat_zero]
    omega
  have lowZero : UInt8.ofNat message.bodySize = 0 ↔ message.bodySize % 256 = 0 := by
    rw [← UInt8.toNat_inj, UInt8.toNat_ofNat', UInt8.toNat_zero]
  have version : (1 : UInt8) ≠ 0 := by decide
  simp only [ZerosLast, head_eq message small, List.pairwise_cons, List.mem_cons,
    List.not_mem_nil, or_false, forall_eq_or_imp, forall_eq, highZero, lowZero, version,
    false_implies, true_and]
  constructor
  · rintro ⟨⟨categoryHigh, categoryLow⟩, highLow, _⟩
    have large : 256 ≤ message.bodySize := by
      by_contra short
      have low := highLow (Nat.lt_of_not_le short)
      omega
    exact ⟨large, fun zero => Nat.not_lt_of_le large (categoryHigh zero)⟩
  · rintro ⟨large, nonzero⟩
    have high : ¬ message.bodySize < 256 := Nat.not_lt_of_le large
    exact ⟨⟨fun zero => (nonzero zero).elim, fun zero => (nonzero zero).elim⟩,
      fun short => (high short).elim, fun _ => trivial, .nil⟩

/-- One turn of the loop hands on the message as it was sent exactly when its head survives
being copied as text, too. -/
theorem found_iff (rest : List UInt8) :
    (∃ data, TcpPeer.readOnce tcpProtocolHead (message.bytes.content ++ rest) = .item data ∧
      data = message.bytes) ↔
        message.bodySize ≤ 65535 ∧ 256 ≤ message.bodySize ∧
          message.data.category.toUInt8 ≠ 0 := by
  have fits := message.bytes.fits
  have kept := TcpPeer.readOnce_kept_iff tcpProtocolHead message.length_head
    (message.content_eq ▸ fits) rest
  have announces : (∃ dataSize, tcpProtocolHead.decodeDataSize message.head
      tcpProtocolHead.size = .ok dataSize ∧
        dataSize.toNat = (body message.data message.codec).length) ↔
          message.bodySize ≤ 65535 := message.announces_iff
  rw [announces, ← content_eq] at kept
  simp only [EcoString.ext_iff, kept]
  exact and_congr_right fun small => message.zerosLast_head_iff small

/-- The size announced is the size sent exactly when the body fits 16 bits. -/
theorem announces_size_iff :
    TcpProtocolHead.decodeDataSize (message.bytes.content.take 4) TcpProtocolHead.sizeHead =
      .ok (message.bytes.size - 4) ↔ message.bodySize ≤ 65535 := by
  have front : message.bytes.content.take 4 = message.head := by
    rw [message.content_eq]
    exact List.take_left' message.length_head
  have sent : (message.bytes.size - 4).toNat = message.bodySize := by
    have fits := message.bytes.fits
    have length := message.length_content
    have four : (4 : UInt32).toNat = 4 := rfl
    rw [maxStringSize] at fits
    rw [UInt32.toNat_sub, EcoString.size_toNat]
    omega
  rw [front, message.decodeDataSize_head, Outcome.ok.injEq, ← UInt32.toNat_inj, sent,
    message.announced_eq_iff]

/-- A message that a string can hold is encoded. -/
def ofFits (data : MessageMeta) (codec : Codec) (coded : data.codec = some codec)
    (fits : (wire data codec).length ≤ maxStringSize) : Encoded where
  data := data
  codec := codec
  bytes := ⟨wire data codec, fits⟩
  start := 0
  coded := coded
  encoded := encode_new_eq_ok.mpr ⟨codec, coded, rfl, rfl⟩

theorem content_ne_nil : message.bytes.content ≠ [] := by
  rw [content_eq]
  exact List.cons_ne_nil _ _

end Encoded

/-- **Framing of TCP messages.** The size announced is the size sent exactly when the body
fits 16 bits; a stream of messages comes out of the receive loop cut where it was joined
exactly when every body does, and unaltered exactly when, besides, every body has at least
256 bytes and no category byte is zero. -/
theorem messages_framed_iff (message : Encoded) (messages : List Encoded) :
    (TcpProtocolHead.decodeDataSize (message.bytes.content.take 4) TcpProtocolHead.sizeHead =
      .ok (message.bytes.size - 4) ↔ message.bodySize ≤ 65535) ∧
    ((TcpPeer.receive tcpProtocolHead (messages.map fun m => m.bytes.content).flatten).1.map
        (fun data => data.content.length) =
      messages.map (fun message => message.bytes.content.length) ↔
        ∀ message ∈ messages, message.bodySize ≤ 65535) ∧
    ((TcpPeer.receive tcpProtocolHead (messages.map fun m => m.bytes.content).flatten).1 =
      messages.map (fun message => message.bytes) ↔
        ∀ message ∈ messages, message.bodySize ≤ 65535 ∧ 256 ≤ message.bodySize ∧
          message.data.category.toUInt8 ≠ 0) := by
  refine ⟨message.announces_size_iff, ?_, ?_⟩
  · rw [← List.forall₂_eq_eq_eq, List.forall₂_map_left_iff, List.forall₂_map_right_iff]
    rw [← TcpPeer.receive_flatten (by decide) Encoded.content_ne_nil (fun _ _ => id)
      Encoded.found_sized_iff messages]
    exact ⟨List.Forall₂.flip, List.Forall₂.flip⟩
  · rw [← List.forall₂_eq_eq_eq, List.forall₂_map_right_iff]
    rw [← TcpPeer.receive_flatten (by decide) Encoded.content_ne_nil
      (fun _ _ same => congrArg (fun data => data.content.length) same)
      Encoded.found_iff messages]
    exact ⟨List.Forall₂.flip, List.Forall₂.flip⟩

/-- A message without optional fields, of a payload of zero bytes. -/
def blankMeta (codec : Codec) : MessageMeta :=
  { MessageMeta.ofCategory categoryMessage.toUInt16 with codec := some codec }

def blankCodec (count : Nat) (small : count ≤ 0x10000) : Codec :=
  ⟨List.replicate count 0, by rw [List.length_replicate]; omega⟩

private theorem metaSize_blank (codec : Codec) : (metaSize true (blankMeta codec)).toNat = 2 := by
  have optionless : metaSize true (blankMeta codec) = metaSize true (.ofCategory 0) := rfl
  rw [optionless]
  decide

private theorem wire_blank_fits (count : Nat) (small : count ≤ 0x10000) :
    (wire (blankMeta (blankCodec count small)) (blankCodec count small)).length ≤
      maxStringSize := by
  have payload : (blankCodec count small).encoded.length = count := List.length_replicate
  rw [length_wire, body, List.length_append, ← metaSize_toNat, metaSize_blank, payload,
    maxStringSize]
  omega

def blank (count : Nat) (small : count ≤ 0x10000) : Encoded :=
  Encoded.ofFits (blankMeta (blankCodec count small)) (blankCodec count small) rfl
    (wire_blank_fits count small)

private theorem bodySize_blank (count : Nat) (small : count ≤ 0x10000) :
    (blank count small).bodySize = 2 + count := by
  have payload : (blankCodec count small).encoded.length = count := List.length_replicate
  have fields : (metaSize true (blank count small).data).toNat = 2 := metaSize_blank _
  rw [Encoded.bodySize, fields]
  exact congrArg (2 + ·) payload

/-- A body of 65536 bytes is announced as empty, and a message of the smallest size comes out
of the loop with another size in its head. -/
theorem messages_not_framed :
    TcpProtocolHead.decodeDataSize ((blank 65534 (by decide)).bytes.content.take 4)
        TcpProtocolHead.sizeHead ≠ .ok ((blank 65534 (by decide)).bytes.size - 4) ∧
      (TcpPeer.receive tcpProtocolHead (blank 0 (by decide)).bytes.content).1 ≠
        [(blank 0 (by decide)).bytes] := by
  refine ⟨fun same => ?_, by decide⟩
  have announced := (Encoded.announces_size_iff _).mp same
  rw [bodySize_blank] at announced
  exact absurd announced (by omega)

end TcpProtocol

end Cube.Eco.Net
