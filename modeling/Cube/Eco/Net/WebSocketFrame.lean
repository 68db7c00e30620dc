import Cube.Eco.Net.WebSocketProtocol

/-! # Frames on the wire

What a frame is, apart from how the protocol reads it: its second byte selects the extended
length and the key, and its length field or its extended length gives the length of its
payload. The reader is compared with this measure.
-/

namespace Cube.Eco.Net

namespace WebSocketProtocolHead

/-! ## The measure of a frame -/

def lengthField (second : UInt8) : UInt8 := second &&& 0x7F

def isMasked (second : UInt8) : Bool := decide (second >>> 7 > 0)

def keySize (second : UInt8) : Nat := if isMasked second then 4 else 0

/-- The size of the head of a frame: two bytes, the extended length and the key. -/
def headSize (second : UInt8) : Nat :=
  2 + getPayloadLenSize (lengthField second) + keySize second

/-- The length of the payload, from the second byte of a frame and what follows it. -/
def payloadLength (second : UInt8) (rest : List UInt8) : Nat :=
  if lengthField second < 126 then (lengthField second).toNat
  else BigEndian.decode (rest.take (getPayloadLenSize (lengthField second)))

theorem lengthField_lt (second : UInt8) : lengthField second < 128 := by
  apply UInt8.lt_iff_toNat_lt.mpr
  rw [lengthField, UInt8.toNat_and]
  exact Nat.lt_of_le_of_lt Nat.and_le_right (by decide)

/-- The three forms of the length. -/
theorem lengthField_cases (second : UInt8) :
    (lengthField second < 126 ∧ getPayloadLenSize (lengthField second) = 0) ∨
      (lengthField second = 126 ∧ getPayloadLenSize (lengthField second) = 2) ∨
      (lengthField second = 127 ∧ getPayloadLenSize (lengthField second) = 8) := by
  have bound := UInt8.lt_iff_toNat_lt.mp (lengthField_lt second)
  rcases Nat.lt_trichotomy (lengthField second).toNat 126 with small | medium | large
  · have field : lengthField second < 126 := UInt8.lt_iff_toNat_lt.mpr small
    exact .inl ⟨field, if_pos field⟩
  · have field : lengthField second = 126 := UInt8.toNat_inj.mp medium
    exact .inr (.inl ⟨field, by rw [field]; rfl⟩)
  · have last : (lengthField second).toNat = 127 := by
      have top : (128 : UInt8).toNat = 128 := rfl
      omega
    have field : lengthField second = 127 := UInt8.toNat_inj.mp last
    exact .inr (.inr ⟨field, by rw [field]; rfl⟩)

theorem payloadLength_short {second : UInt8} (field : lengthField second < 126)
    (rest : List UInt8) : payloadLength second rest = (lengthField second).toNat := if_pos field

theorem payloadLength_medium {second : UInt8} (field : lengthField second = 126)
    (rest : List UInt8) : payloadLength second rest = BigEndian.decode (rest.take 2) := by
  rw [payloadLength, field]
  rfl

theorem payloadLength_long {second : UInt8} (field : lengthField second = 127)
    (rest : List UInt8) : payloadLength second rest = BigEndian.decode (rest.take 8) := by
  rw [payloadLength, field]
  rfl

private theorem shiftRight_pos_iff (value : UInt64) :
    value >>> 32 > 0 ↔ 2 ^ 32 ≤ value.toNat := by
  have shift : (32 : UInt64).toNat = 32 := rfl
  rw [gt_iff_lt, UInt64.lt_iff_toNat_lt, UInt64.toNat_shiftRight, shift, UInt64.toNat_zero,
    Nat.shiftRight_eq_div_pow]
  norm_num

section DecodeHead

variable {first second : UInt8} {rest : List UInt8} {size : UInt32}

private theorem slice_rest {count : Nat} (inside : count ≤ rest.length) :
    (Buffer.slice (first :: second :: rest) 2 count : Outcome Error _) = .ok (rest.take count) :=
  Buffer.slice_eq_ok.mpr ⟨by simp only [List.length_cons]; omega, rfl⟩

/-- A head that ends before its extended length is rejected. -/
theorem decodeHead_of_short
    (short : size.toNat < getPayloadLenSize (lengthField second) + 2) :
    ∃ e, decodeHead (first :: second :: rest) size = .reject e :=
  ⟨_, if_pos short⟩

/-- **What `decode_head` finds**, when the extended length is there and 32 bits can hold the
length of the payload. -/
theorem decodeHead_eq
    (room : getPayloadLenSize (lengthField second) + 2 ≤ size.toNat)
    (present : getPayloadLenSize (lengthField second) ≤ rest.length)
    (small : payloadLength second rest < 2 ^ 32) :
    decodeHead (first :: second :: rest) size =
      .ok ⟨decide (first >>> 7 > 0), first &&& 0x0F,
        UInt32.ofNat (payloadLength second rest), isMasked second,
        getPayloadLenSize (lengthField second) + 2⟩ := by
  have enough : ¬ size.toNat < getPayloadLenSize (lengthField second) + 2 :=
    Nat.not_lt_of_le room
  refine (if_neg enough).trans ?_
  rcases lengthField_cases second with ⟨field, _⟩ | ⟨field, two⟩ | ⟨field, eight⟩
  · have below := UInt8.lt_iff_toNat_lt.mp field
    have notMedium : second &&& 0x7F ≠ 126 := fun same =>
      absurd (congrArg UInt8.toNat same) (Nat.ne_of_lt below)
    have notLong : second &&& 0x7F ≠ 127 := fun same =>
      absurd (congrArg UInt8.toNat same) (Nat.ne_of_lt (Nat.lt_succ_of_lt below))
    have value : (second &&& 0x7F).toUInt32 = UInt32.ofNat (payloadLength second rest) := by
      apply UInt32.toNat_inj.mp
      rw [payloadLength_short field, UInt8.toNat_toUInt32, UInt32.toNat_ofNat']
      exact (Nat.mod_eq_of_lt (Nat.lt_trans below (by decide))).symm
    rw [if_neg notMedium, if_neg notLong, value]
    rfl
  · have medium : second &&& 0x7F = 126 := field
    rw [two] at present
    have value : (ntoh16 (rest.take 2)).toUInt32 =
        UInt32.ofNat (payloadLength second rest) := by
      apply UInt32.toNat_inj.mp
      rw [UInt16.toNat_toUInt32, toNat_ntoh16 (List.length_take_of_le present),
        payloadLength_medium field, UInt32.toNat_ofNat']
      rw [payloadLength_medium field] at small
      exact (Nat.mod_eq_of_lt small).symm
    rw [if_pos medium, slice_rest present, Outcome.ok_bind, value]
    rfl
  · have long : second &&& 0x7F = 127 := field
    have notMedium : second &&& 0x7F ≠ 126 := by rw [long]; decide
    rw [eight] at present
    have exact_value : (ntoh64 (rest.take 8)).toNat = payloadLength second rest := by
      rw [toNat_ntoh64 (List.length_take_of_le present), payloadLength_long field]
    have fits : ¬ ntoh64 (rest.take 8) >>> 32 > 0 := by
      rw [shiftRight_pos_iff, exact_value]
      exact Nat.not_le_of_lt small
    have value : (ntoh64 (rest.take 8)).toUInt32 =
        UInt32.ofNat (payloadLength second rest) := by
      apply UInt32.toNat_inj.mp
      rw [UInt64.toNat_toUInt32, exact_value, UInt32.toNat_ofNat']
    rw [if_neg notMedium, if_pos long, slice_rest present, Outcome.ok_bind]
    refine (if_neg fits).trans ?_
    rw [value]
    rfl

/-- A payload longer than 32 bits can say is rejected. -/
theorem decodeHead_of_large
    (room : getPayloadLenSize (lengthField second) + 2 ≤ size.toNat)
    (present : getPayloadLenSize (lengthField second) ≤ rest.length)
    (large : 2 ^ 32 ≤ payloadLength second rest) :
    ∃ e, decodeHead (first :: second :: rest) size = .reject e := by
  have enough : ¬ size.toNat < getPayloadLenSize (lengthField second) + 2 :=
    Nat.not_lt_of_le room
  rcases lengthField_cases second with ⟨field, _⟩ | ⟨field, _⟩ | ⟨field, eight⟩
  · have below := UInt8.lt_iff_toNat_lt.mp field
    rw [payloadLength_short field] at large
    exact absurd (Nat.lt_trans below (by decide)) (Nat.not_lt_of_le large)
  · have bound := BigEndian.decode_lt (rest.take 2)
    have short : (rest.take 2).length ≤ 2 := List.length_take_le 2 rest
    have power : 256 ^ (rest.take 2).length ≤ 256 ^ 2 := Nat.pow_le_pow_right (by omega) short
    rw [payloadLength_medium field] at large
    omega
  · have long : second &&& 0x7F = 127 := field
    have notMedium : second &&& 0x7F ≠ 126 := by rw [long]; decide
    rw [eight] at present
    have exceeds : ntoh64 (rest.take 8) >>> 32 > 0 := by
      rw [shiftRight_pos_iff, toNat_ntoh64 (List.length_take_of_le present),
        ← payloadLength_long field]
      exact large
    refine ⟨⟨-1, "decode data size fail, 'payload len > uint32_t': " ++
      toString (ntoh64 (rest.take 8))⟩, (if_neg enough).trans ?_⟩
    rw [if_neg notMedium, if_pos long, slice_rest present, Outcome.ok_bind]
    exact if_pos exceeds

end DecodeHead

/-! ## Unmasking -/

/-- The content with everything from a position on masked. -/
def maskedFrom (content : List UInt8) (start : Nat) (maskingKey : List UInt8) : List UInt8 :=
  content.take start ++ Masking.mask maskingKey 0 (content.drop start)

@[simp] theorem length_maskedFrom (content : List UInt8) (start : Nat)
    (maskingKey : List UInt8) : (maskedFrom content start maskingKey).length = content.length := by
  rw [maskedFrom, List.length_append, Masking.length_mask, ← List.length_append,
    List.take_append_drop]

/-- Masking from inside the string masks its tail. -/
theorem maskData_eq_ok {bytes masked : EcoString} {start : UInt32} {maskingKey : List UInt8}
    (nonempty : maskingKey ≠ []) (inside : start.toNat ≤ bytes.content.length) :
    maskData bytes start maskingKey = .ok masked ↔
      masked.content = maskedFrom bytes.content start.toNat maskingKey := by
  have fits := bytes.fits
  have size : (bytes.size - start).toNat = (bytes.content.drop start.toNat).length := by
    rw [UInt32.toNat_sub, EcoString.size_toNat, List.length_drop]
    rw [maxStringSize] at fits
    omega
  have inPlace := Masking.maskInPlace_append (ε := Error) nonempty start.toNat 0
    (List.length_take_of_le inside).symm (bytes.content.drop start.toNat) []
  rw [List.append_nil, List.append_nil, List.take_append_drop, ← size] at inPlace
  rw [maskData, inPlace, Outcome.ok_bind, EcoString.ofContent_eq_ok]
  rfl

section Unmask

variable {bytes : EcoString} {head : FrameHead} {maskingKey : List UInt8}

/-- A frame without a mask is left as it is. -/
theorem unmask_of_bare (found : decodeHead bytes.content bytes.size = .ok head)
    (bare : head.mask = false) : unmask bytes = .ok (bytes, head.pos) := by
  rw [unmask, found, Outcome.ok_bind, bare]
  rfl

/-- A masked frame is unmasked after its key. -/
theorem unmask_of_masked (found : decodeHead bytes.content bytes.size = .ok head)
    (masked : head.mask = true)
    (keyed : (Buffer.slice bytes.content head.pos 4 : Outcome Error _) = .ok maskingKey) :
    ∃ plain, unmask bytes = .ok (plain, head.pos + 4) ∧
      plain.content = maskedFrom bytes.content (head.pos + 4) maskingKey := by
  have inside := (Buffer.slice_eq_ok.mp keyed).1
  have nonempty : maskingKey ≠ [] := List.ne_nil_of_length_eq_add_one (Buffer.length_of_slice keyed)
  have start : (UInt32.ofNat (head.pos + 4)).toNat = head.pos + 4 := by
    have fits := bytes.fits
    rw [maxStringSize] at fits
    rw [UInt32.toNat_ofNat']
    omega
  have fits : (maskedFrom bytes.content (head.pos + 4) maskingKey).length ≤ maxStringSize := by
    rw [length_maskedFrom]
    exact bytes.fits
  refine ⟨⟨_, fits⟩, ?_, rfl⟩
  have unmasked : maskData bytes (UInt32.ofNat (head.pos + 4)) maskingKey = .ok ⟨_, fits⟩ := by
    rw [maskData_eq_ok nonempty (start.symm ▸ inside), start]
  have key : (Buffer.slice bytes.content head.pos sizeWsMaskKey.toNat : Outcome Error _) =
      .ok maskingKey := keyed
  rw [unmask, found, Outcome.ok_bind, masked, if_pos rfl, key, Outcome.ok_bind]
  exact (congrArg (· >>= _) unmasked).trans rfl

end Unmask

/-! ## Well-formed frames -/

/-- A frame whose parts have the sizes that its second byte and its extended length give. -/
structure Frame where
  first : UInt8
  second : UInt8
  extended : List UInt8
  key : List UInt8
  payload : List UInt8
  extended_length : extended.length = getPayloadLenSize (lengthField second)
  key_length : key.length = keySize second
  payload_length : payload.length = payloadLength second extended

theorem payloadLength_append {second : UInt8} {extended : List UInt8}
    (present : getPayloadLenSize (lengthField second) ≤ extended.length) (rest : List UInt8) :
    payloadLength second (extended ++ rest) = payloadLength second extended := by
  rw [payloadLength, payloadLength, List.take_append_of_le_length present]

namespace Frame

variable (frame : Frame)

/-- What follows the first two bytes. -/
def rest : List UInt8 := frame.extended ++ (frame.key ++ frame.payload)

/-- The frame as it stands on the wire. -/
def wire : List UInt8 := frame.first :: frame.second :: frame.rest

theorem payloadLength_rest (after : List UInt8) :
    payloadLength frame.second (frame.rest ++ after) = frame.payload.length := by
  rw [rest, List.append_assoc, payloadLength_append frame.extended_length.ge, frame.payload_length]

theorem length_wire : frame.wire.length = headSize frame.second + frame.payload.length := by
  rw [wire, rest, List.length_cons, List.length_cons, List.length_append, List.length_append,
    frame.extended_length, frame.key_length, headSize]
  omega

theorem wire_ne_nil : frame.wire ≠ [] := List.cons_ne_nil _ _

/-- The payload without its mask. -/
def plain : List UInt8 :=
  if isMasked frame.second then Masking.mask frame.key 0 frame.payload else frame.payload

/-- The head of the frame up to its payload. -/
def header : List UInt8 := frame.first :: frame.second :: (frame.extended ++ frame.key)

section Decode

variable {frame : Frame} {bytes : EcoString}

end Decode

end Frame

end WebSocketProtocolHead

namespace WebSocketProtocol

/-- Decoding a message unmasks its frame and reads the meta data after the version and the
category. -/
theorem decode_eq (data : MessageMeta) (bytes : EcoString) :
    decode data bytes = (WebSocketProtocolHead.unmask bytes >>= fun plain =>
      decodeMeta false plain.1 (plain.2 + 2) data >>= fun read =>
        .ok (read.1, ⟨read.2, plain.1.size - UInt32.ofNat read.2⟩, plain.1)) := by
  rw [decode, WebSocketProtocolHeadEx.decode, Outcome.bind_assoc]
  rfl

theorem decode_eq_ok {data read : MessageMeta} {view : Bytes} {bytes after : EcoString}
    (returned : decode data bytes = .ok (read, view, after)) :
    ∃ pos, WebSocketProtocolHead.unmask bytes = .ok (after, pos) ∧
      decodeMeta false after (pos + 2) data = .ok (read, view.data) ∧
      view.data ≤ after.content.length ∧ view.of after = after.content.drop view.data ∧
      view.data + view.size.toNat = after.content.length := by
  rw [decode_eq, Outcome.bind_eq_ok] at returned
  obtain ⟨⟨plain, pos⟩, unmasked, returned⟩ := returned
  rw [Outcome.bind_eq_ok] at returned
  obtain ⟨⟨found, dataPos⟩, decoded, same⟩ := returned
  cases same
  have inside : dataPos ≤ plain.content.length := (decodeMeta_eq_ok decoded).2.1
  have fits := plain.fits
  have size : dataPos + (plain.size - UInt32.ofNat dataPos).toNat = plain.content.length := by
    rw [maxStringSize] at fits
    rw [UInt32.toNat_sub, EcoString.size_toNat, UInt32.toNat_ofNat']
    omega
  exact ⟨pos, unmasked, decoded, inside, Bytes.of_tail inside, size⟩

end WebSocketProtocol

end Cube.Eco.Net
