import Cube.Eco.Net.TcpPeer
import Cube.Eco.Net.WebSocketFrame

/-! # Framing of WebSocket messages

The receive loop reads four bytes of a frame and asks for its data size. The size follows
the length of the payload where it should follow the form of the length, and it takes two
bytes of payload for granted. The frames that the loop takes whole are characterised by
their first two bytes and the length of their payload.
-/

namespace Cube.Eco.Net

namespace WebSocketProtocolHead

/-- The frames the loop goes on with: no close frame, and a length that four bytes hold. -/
def Accepted (first second : UInt8) : Prop :=
  first &&& 0x0F ≠ websocketFrameClose ∧ lengthField second ≤ 126

/-- The frames whose size is computed as it is: a short length with a key or two bytes of
payload, or an extended length that is needed. -/
def Counted (second : UInt8) (payload : Nat) : Prop :=
  (lengthField second < 126 ∧ (isMasked second = true ∨ 2 ≤ payload)) ∨
    (lengthField second = 126 ∧ 126 ≤ payload)

instance (first second : UInt8) : Decidable (Accepted first second) :=
  inferInstanceAs (Decidable (_ ∧ _))

instance (second : UInt8) (payload : Nat) : Decidable (Counted second payload) :=
  inferInstanceAs (Decidable (_ ∨ _))

/-- The accepted forms of the length: in the field itself, or in two more bytes. -/
theorem lengthField_le_cases {second : UInt8} (field : lengthField second ≤ 126) :
    (lengthField second < 126 ∧ getPayloadLenSize (lengthField second) = 0) ∨
      (lengthField second = 126 ∧ getPayloadLenSize (lengthField second) = 2) := by
  rcases lengthField_cases second with short | medium | ⟨long, _⟩
  · exact .inl short
  · exact .inr medium
  · rw [long] at field
    exact absurd field (by decide)

theorem payloadLength_lt {second : UInt8} (field : lengthField second ≤ 126) (rest : List UInt8) :
    payloadLength second rest < 2 ^ 16 := by
  rcases lengthField_le_cases field with ⟨short, _⟩ | ⟨medium, _⟩
  · rw [payloadLength_short short]
    exact Nat.lt_of_le_of_lt (UInt8.le_iff_toNat_le.mp field) (by decide)
  · have bound := BigEndian.decode_lt (rest.take 2)
    have power : 256 ^ (rest.take 2).length ≤ 256 ^ 2 :=
      Nat.pow_le_pow_right (by omega) (List.length_take_le 2 rest)
    rw [payloadLength_medium medium]
    exact Nat.lt_of_lt_of_le bound power

/-- The data size announced by four bytes of a frame. -/
def announced (second : UInt8) (rest : List UInt8) : UInt32 :=
  let payload := UInt32.ofNat (payloadLength second rest)
  adjustDataSize (if isMasked second then payload + 4 else payload) payload

/-- **What `decode_data_size` says** of the four bytes the receive loop has read. -/
theorem decodeDataSize_eq_ok {first second : UInt8} {rest : List UInt8} {dataSize : UInt32}
    (four : rest.length = 2) :
    decodeDataSize (first :: second :: rest) WebSocketProtocolHeadEx.size = .ok dataSize ↔
      Accepted first second ∧ dataSize = announced second rest := by
  have size : WebSocketProtocolHeadEx.size.toNat = 4 := rfl
  by_cases field : lengthField second ≤ 126
  · have extended : getPayloadLenSize (lengthField second) ≤ 2 := by
      rcases lengthField_le_cases field with ⟨_, none⟩ | ⟨_, two⟩
      · exact none ▸ Nat.zero_le 2
      · exact two.le
    have found : decodeHead (first :: second :: rest) WebSocketProtocolHeadEx.size = .ok _ :=
      decodeHead_eq (Nat.add_le_add_right extended 2) (four ▸ extended)
      (Nat.lt_trans (payloadLength_lt field rest) (by omega))
    rw [decodeDataSize, found, Outcome.ok_bind]
    by_cases close : first &&& 0x0F = websocketFrameClose
    · refine iff_of_false ?_ fun accepted => accepted.1.1 close
      rw [if_pos close]
      nofun
    · rw [if_neg close, Outcome.pure_eq, Outcome.ok.injEq]
      exact ⟨fun same => ⟨⟨close, field⟩, same.symm⟩, fun same => same.2.symm⟩
  · rcases lengthField_cases second with ⟨short, _⟩ | ⟨medium, _⟩ | ⟨_, eight⟩
    · exact absurd (UInt8.le_of_lt short) field
    · exact absurd (UInt8.le_of_eq medium) field
    · obtain ⟨e, rejected⟩ : ∃ e, decodeHead (first :: second :: rest)
          WebSocketProtocolHeadEx.size = .reject e :=
        decodeHead_of_short (by rw [eight]; decide)
      refine iff_of_false ?_ fun accepted => field accepted.1.2
      rw [decodeDataSize, rejected, Outcome.reject_bind]
      nofun

private theorem announced_toNat {second : UInt8} (field : lengthField second ≤ 126)
    (rest : List UInt8) : (announced second rest).toNat =
      if payloadLength second rest < 126 then
        (2 ^ 32 - 2 + (payloadLength second rest + keySize second)) % 2 ^ 32
      else payloadLength second rest + keySize second := by
  have bound := payloadLength_lt field rest
  have value : (UInt32.ofNat (payloadLength second rest)).toNat = payloadLength second rest := by
    rw [UInt32.toNat_ofNat']
    omega
  have keyed : (if isMasked second then UInt32.ofNat (payloadLength second rest) + 4
      else UInt32.ofNat (payloadLength second rest)).toNat =
        payloadLength second rest + keySize second := by
    have four : (4 : UInt32).toNat = 4 := rfl
    unfold keySize
    split
    · rw [UInt32.toNat_add, value]
      omega
    · exact value
  have below : UInt32.ofNat (payloadLength second rest) < 126 ↔
      payloadLength second rest < 126 := by
    rw [UInt32.lt_iff_toNat_lt, value]
    rfl
  have above : UInt32.ofNat (payloadLength second rest) ≥ 126 ↔
      126 ≤ payloadLength second rest := by
    rw [ge_iff_le, UInt32.le_iff_toNat_le, value]
    rfl
  have two : (2 : UInt32).toNat = 2 := rfl
  simp only [announced, adjustDataSize, below, above]
  split
  next => rw [UInt32.toNat_sub, keyed, two]
  next large => rw [if_pos (Nat.le_of_not_lt large), UInt32.add_zero, keyed]

/-- **The size is right** exactly for the frames that are counted. -/
theorem announced_exact_iff {second : UInt8} (field : lengthField second ≤ 126)
    (rest : List UInt8) :
    4 + (announced second rest).toNat = headSize second + payloadLength second rest ↔
      Counted second (payloadLength second rest) := by
  have bound := payloadLength_lt field rest
  have keys : keySize second = if isMasked second then 4 else 0 := rfl
  rw [announced_toNat field, headSize, Counted]
  rcases lengthField_le_cases field with ⟨short, none⟩ | ⟨medium, two⟩
  · have below : payloadLength second rest < 126 := by
      rw [payloadLength_short short]
      exact UInt8.lt_iff_toNat_lt.mp short
    have notMedium : lengthField second ≠ 126 := fun same =>
      absurd (same ▸ short) (UInt8.lt_irrefl 126)
    rw [if_pos below, none]
    simp only [short, notMedium, true_and, false_and, or_false]
    split at keys
    next masked =>
      simp only [masked, true_or, iff_true]
      omega
    next bare =>
      simp only [bare, Bool.false_eq_true, false_or]
      omega
  · have notShort : ¬ (126 : UInt8) < 126 := UInt8.lt_irrefl 126
    rw [two]
    simp only [medium, notShort, false_and, false_or, true_and]
    split
    next below =>
      refine iff_of_false ?_ (Nat.not_le_of_lt below)
      split at keys <;> omega
    next large =>
      refine iff_of_true ?_ (Nat.le_of_not_lt large)
      omega

/-! ## Frames in the receive loop -/

namespace Frame

variable (frame : Frame)

/-- Where the frame has four bytes, they are what the loop reads first. -/
theorem announces_iff (four : 4 ≤ frame.wire.length) :
    (∃ dataSize, decodeDataSize (frame.wire.take 4) WebSocketProtocolHeadEx.size =
      .ok dataSize ∧ dataSize.toNat = (frame.wire.drop 4).length) ↔
        Accepted frame.first frame.second ∧ Counted frame.second frame.payload.length := by
  have split : frame.wire.take 4 = frame.first :: frame.second :: frame.rest.take 2 := rfl
  have long : 2 ≤ frame.rest.length := by
    rw [wire, List.length_cons, List.length_cons] at four
    omega
  have two : (frame.rest.take 2).length = 2 := List.length_take_of_le long
  have payload (field : lengthField frame.second ≤ 126) :
      payloadLength frame.second (frame.rest.take 2) = frame.payload.length := by
    have present : getPayloadLenSize (lengthField frame.second) ≤ (frame.rest.take 2).length := by
      rw [two]
      rcases lengthField_le_cases field with ⟨_, none⟩ | ⟨_, extended⟩
      · exact none ▸ Nat.zero_le 2
      · exact extended.le
    rw [← payloadLength_append present (frame.rest.drop 2), List.take_append_drop,
      ← frame.payloadLength_rest [], List.append_nil]
  have total := frame.length_wire
  constructor
  · intro announces
    rcases announces with ⟨dataSize, decoded, whole⟩
    rw [split, decodeDataSize_eq_ok two] at decoded
    rcases decoded with ⟨accepted, rfl⟩
    have sized := announced_exact_iff accepted.2 (frame.rest.take 2)
    rw [payload accepted.2] at sized
    rw [List.length_drop] at whole
    exact ⟨accepted, sized.mp (by omega)⟩
  · intro good
    rcases good with ⟨accepted, counted⟩
    have sized := announced_exact_iff accepted.2 (frame.rest.take 2)
    rw [payload accepted.2] at sized
    have exact_size := sized.mpr counted
    refine ⟨announced frame.second (frame.rest.take 2), ?_, ?_⟩
    · rw [split, decodeDataSize_eq_ok two]
      exact ⟨accepted, rfl⟩
    · rw [List.length_drop]
      omega

/-- A frame that is counted has the four bytes the loop reads first. -/
theorem four_le_of_counted (counted : Counted frame.second frame.payload.length) :
    4 ≤ frame.wire.length := by
  rw [frame.length_wire, headSize, keySize]
  rcases counted with ⟨_, masked | payload⟩ | ⟨medium, _⟩
  · rw [masked, if_pos rfl]
    omega
  · omega
  · rw [medium]
    change 4 ≤ 2 + 2 + _ + _
    omega

theorem fits_of_accepted (accepted : Accepted frame.first frame.second) :
    frame.wire.length ≤ maxStringSize := by
  have bound := payloadLength_lt accepted.2 frame.extended
  have keyed : keySize frame.second ≤ 4 := by
    unfold keySize
    split <;> omega
  have extended : getPayloadLenSize (lengthField frame.second) ≤ 2 := by
    rcases lengthField_le_cases accepted.2 with ⟨_, none⟩ | ⟨_, two⟩
    · exact none ▸ Nat.zero_le 2
    · exact two.le
  rw [← frame.payload_length] at bound
  rw [frame.length_wire, headSize, maxStringSize]
  omega

/-- One turn of the loop takes the frame as a whole exactly when it is accepted and
counted. -/
theorem found_sized_iff (rest : List UInt8) :
    (∃ data, TcpPeer.readOnce webSocketProtocolHead (frame.wire ++ rest) = .item data ∧
      data.content.length = frame.wire.length) ↔
        Accepted frame.first frame.second ∧ Counted frame.second frame.payload.length := by
  constructor
  · intro found
    rcases found with ⟨data, item, whole⟩
    have four : 4 ≤ frame.wire.length := by
      obtain ⟨dataSize, _, length, _⟩ := TcpPeer.length_of_readOnce item
      have head : webSocketProtocolHead.size.toNat = 4 := rfl
      omega
    have headed : (frame.wire.take 4).length = webSocketProtocolHead.size.toNat :=
      List.length_take_of_le four
    rw [← List.take_append_drop 4 frame.wire] at item whole
    exact (frame.announces_iff four).mp (TcpPeer.announced_of_readOnce headed item whole)
  · intro good
    have four := frame.four_le_of_counted good.2
    have headed : (frame.wire.take 4).length = webSocketProtocolHead.size.toNat :=
      List.length_take_of_le four
    obtain ⟨dataSize, decoded, whole⟩ := (frame.announces_iff four).mpr good
    have fits := frame.fits_of_accepted good.1
    rw [← List.take_append_drop 4 frame.wire] at fits
    obtain ⟨data, found, content⟩ :=
      TcpPeer.readOnce_frame webSocketProtocolHead headed decoded whole fits rest
    rw [List.take_append_drop] at found
    refine ⟨data, found, ?_⟩
    rw [content, List.length_append, length_strncpy, ← List.length_append, List.take_append_drop]

end Frame

/-- **Framing of WebSocket messages.** The four bytes that the loop reads, if they are
accepted, give the size of the frame exactly when it is counted; and a stream of frames
comes out of the loop cut where it was joined exactly when each is accepted and counted. -/
theorem frames_aligned_iff (first second third fourth : UInt8) (dataSize : UInt32)
    (frames : List Frame) :
    (decodeDataSize [first, second, third, fourth] WebSocketProtocolHeadEx.size =
        .ok dataSize →
      (4 + dataSize.toNat = headSize second + payloadLength second [third, fourth] ↔
        Counted second (payloadLength second [third, fourth]))) ∧
    ((TcpPeer.receive webSocketProtocolHead (frames.map Frame.wire).flatten).1.map
        (fun data => data.content.length) =
      frames.map (fun frame => frame.wire.length) ↔
        ∀ frame ∈ frames,
          Accepted frame.first frame.second ∧ Counted frame.second frame.payload.length) := by
  refine ⟨fun decoded => ?_, ?_⟩
  · obtain ⟨accepted, rfl⟩ := (decodeDataSize_eq_ok rfl).mp decoded
    exact announced_exact_iff accepted.2 [third, fourth]
  · rw [← List.forall₂_eq_eq_eq, List.forall₂_map_left_iff, List.forall₂_map_right_iff,
      ← TcpPeer.receive_flatten (by decide) Frame.wire_ne_nil (fun _ _ => id)
        Frame.found_sized_iff frames]
    exact ⟨List.Forall₂.flip, List.Forall₂.flip⟩

/-- A masked text frame of five bytes is counted. -/
theorem frames_aligned_masked :
    4 + (7 : UInt32).toNat = headSize 0x85 + payloadLength 0x85 [0x23, 0x32] :=
  ((frames_aligned_iff 0x81 0x85 0x23 0x32 7 []).1 (by decide)).mpr (by decide)

/-- An empty frame without a mask. -/
def emptyFrame : Frame :=
  ⟨0x82, 0x00, [], [], [], by decide, by decide, by decide⟩

/-- The data size of an empty frame wraps, that of a frame whose extended length was not
needed is two bytes short, and the loop does not get past an empty frame. -/
theorem frames_not_aligned :
    (decodeDataSize [0x82, 0x00, 0x82, 0x00] WebSocketProtocolHeadEx.size = .ok 0xFFFFFFFE ∧
      4 + (0xFFFFFFFE : UInt32).toNat ≠ headSize 0x00 + payloadLength 0x00 [0x82, 0x00]) ∧
    (decodeDataSize [0x82, 0x7E, 0x00, 0x05] WebSocketProtocolHeadEx.size = .ok 3 ∧
      4 + (3 : UInt32).toNat ≠ headSize 0x7E + payloadLength 0x7E [0x00, 0x05]) ∧
    (TcpPeer.receive webSocketProtocolHead
        ([emptyFrame, emptyFrame].map Frame.wire).flatten).1.map
          (fun data => data.content.length) ≠
      [emptyFrame, emptyFrame].map (fun frame => frame.wire.length) := by
  decide

end WebSocketProtocolHead

end Cube.Eco.Net

/-! ## Bounds of the WebSocket decoder

The decoder compares sizes only after it has passed the frame head: it reads the key, the
version and the category wherever the first two bytes put them. A frame as the receive loop
delivers it is decoded inside its bytes exactly when it has room for those.
-/

namespace Cube.Eco.Net

namespace WebSocketProtocolHead

section Defined

variable {bytes : EcoString} {head : FrameHead}

/-- Where the version of a message stands. -/
def FrameHead.versionPos (head : FrameHead) : Nat := head.pos + if head.mask then 4 else 0

/-- Decoding the message head reads the key, the version and the category. -/
theorem decode_defined_iff (found : decodeHead bytes.content bytes.size = .ok head) :
    (decode bytes).Defined ↔ head.versionPos + 2 ≤ bytes.content.length := by
  rw [decode, found, Outcome.ok_bind, FrameHead.versionPos]
  cases head.mask with
  | false =>
      simp only [Bool.false_eq_true, if_false, Nat.add_zero, EcoString.get,
        Buffer.read_bind_defined, Outcome.pure_eq, Outcome.defined_ok, exists_prop, and_true]
      omega
  | true =>
      have four : sizeWsMaskKey.toNat = 4 := rfl
      have key (inside : head.pos + 4 ≤ bytes.content.length) :
          ((bytes.content.drop head.pos).take 4).length = 4 := by
        rw [List.length_take, List.length_drop]
        omega
      simp only [if_true, four, EcoString.get, Buffer.slice_bind_defined,
        Buffer.read_bind_defined, Outcome.pure_eq, Outcome.defined_ok, exists_prop, and_true]
      constructor
      · intro defined
        exact Nat.succ_le_of_lt defined.2.2.2.1
      · intro room
        have inside : head.pos + 4 ≤ bytes.content.length := by omega
        rw [key inside]
        omega

/-- Unmasking reads the key and then everything after it. -/
theorem unmask_defined_iff (found : decodeHead bytes.content bytes.size = .ok head) :
    (unmask bytes).Defined ↔ (head.mask = true → head.pos + 4 ≤ bytes.content.length) := by
  cases masked : head.mask with
  | false =>
      rw [unmask_of_bare found masked]
      exact iff_of_true (Outcome.defined_ok _) nofun
  | true =>
      by_cases inside : head.pos + 4 ≤ bytes.content.length
      · obtain ⟨maskingKey, keyed⟩ := Buffer.slice_of_le (ε := Error) inside
        obtain ⟨plain, unmasked, _⟩ := unmask_of_masked found masked keyed
        rw [unmasked]
        exact iff_of_true (Outcome.defined_ok _) fun _ => inside
      · refine iff_of_false (fun defined => ?_) fun within => inside (within rfl)
        rw [unmask, found, Outcome.ok_bind, masked, if_pos rfl] at defined
        exact inside (Buffer.slice_bind_defined.mp defined).1

end Defined

/-- The frames that reach the decoder have a head that it reads. -/
theorem decodeHead_of_received {bytes : EcoString} {dataSize : UInt32}
    (announced : decodeDataSize (bytes.content.take 4) WebSocketProtocolHeadEx.size =
      .ok dataSize)
    (whole : bytes.content.length = 4 + dataSize.toNat) :
    ∃ head, decodeHead bytes.content bytes.size = .ok head ∧
      head.versionPos = headSize (bytes.content.getD 1 0) := by
  match split : bytes.content with
  | first :: second :: third :: fourth :: rest =>
      have accepted := ((decodeDataSize_eq_ok rfl).mp (split ▸ announced)).1
      have extended : getPayloadLenSize (lengthField second) ≤ 2 := by
        rcases lengthField_le_cases accepted.2 with ⟨_, none⟩ | ⟨_, two⟩
        · exact none ▸ Nat.zero_le 2
        · exact two.le
      have size : bytes.size.toNat = rest.length + 4 := by
        rw [EcoString.size_toNat, split]
        rfl
      refine ⟨_, decodeHead_eq (by omega) ?_ ?_, ?_⟩
      · rw [List.length_cons, List.length_cons]
        omega
      · exact Nat.lt_trans (payloadLength_lt accepted.2 _) (by omega)
      · exact congrArg (· + keySize second) (Nat.add_comm _ 2)
  | [] | [_] | [_, _] | [_, _, _] =>
      rw [split] at whole
      simp only [List.length_cons, List.length_nil] at whole
      omega

end WebSocketProtocolHead

/-- What the decoder owes the code around it: no access outside the bytes, no size that
wraps, a payload inside the bytes, nothing accepted that is not a message, and the rest
rejected. -/
structure DecodesSafely (bytes : EcoString) : Prop where
  head : (WebSocketProtocolHead.decode bytes).Defined
  message : ∀ data, (WebSocketProtocol.decode data bytes).Defined
  masking : ∀ head, WebSocketProtocolHead.decodeHead bytes.content bytes.size = .ok head →
    head.mask = true → head.pos + 4 ≤ bytes.content.length
  payload : ∀ data read view after,
    WebSocketProtocol.decode data bytes = .ok (read, view, after) →
      view.data + view.size.toNat ≤ after.content.length
  accepted : ∀ data read view after,
    WebSocketProtocol.decode data bytes = .ok (read, view, after) →
      ∃ front, after.content = front ++ (metaBytes false read ++ view.of after)
  rejected : ∀ data, (∀ message, WebSocketProtocol.decode data bytes ≠ .ok message) →
    ∃ e, WebSocketProtocol.decode data bytes = .reject e

/-- **Bounds of the decoder.** A byte string of the size its first four bytes announce is
decoded safely exactly when the key, the version and the category are inside. -/
theorem decodesSafely_iff (bytes : EcoString) (dataSize : UInt32)
    (announced : WebSocketProtocolHead.decodeDataSize (bytes.content.take 4)
      WebSocketProtocolHeadEx.size = .ok dataSize)
    (whole : bytes.content.length = 4 + dataSize.toNat) :
    DecodesSafely bytes ↔
      WebSocketProtocolHead.headSize (bytes.content.getD 1 0) + 2 ≤ bytes.content.length := by
  obtain ⟨head, found, position⟩ := WebSocketProtocolHead.decodeHead_of_received announced whole
  rw [← position, ← WebSocketProtocolHead.decode_defined_iff found]
  refine ⟨DecodesSafely.head, fun defined => ?_⟩
  have room := (WebSocketProtocolHead.decode_defined_iff found).mp defined
  have key : head.mask = true → head.pos + 4 ≤ bytes.content.length := by
    intro masked
    rw [WebSocketProtocolHead.FrameHead.versionPos, masked, if_pos rfl] at room
    omega
  have message (data : MessageMeta) : (WebSocketProtocol.decode data bytes).Defined := by
    rw [WebSocketProtocol.decode_eq, Outcome.defined_bind]
    refine ⟨(WebSocketProtocolHead.unmask_defined_iff found).mpr key, fun plain _ => ?_⟩
    rw [Outcome.defined_bind]
    exact ⟨decodeMeta_defined _ _ _ _, fun _ _ => Outcome.defined_ok _⟩
  exact
    { head := defined
      message := message
      masking := by
        intro other again masked
        cases found.symm.trans again
        exact key masked
      payload := by
        intro data read view after returned
        obtain ⟨_, _, _, _, _, size⟩ := WebSocketProtocol.decode_eq_ok returned
        exact size.le
      accepted := by
        intro data read view after returned
        obtain ⟨pos, _, decoded, _, shown, _⟩ := WebSocketProtocol.decode_eq_ok returned
        refine ⟨after.content.take (pos + 2), ?_⟩
        rw [shown, ← (decodeMeta_eq_ok decoded).2.2.1, List.take_append_drop]
      rejected := by
        intro data refused
        match outcome : WebSocketProtocol.decode data bytes with
        | .ok read => exact absurd outcome (refused read)
        | .reject e => exact ⟨e, rfl⟩
        | .fault => exact absurd outcome (message data) }

/-- A masked message of four bytes is decoded safely. -/
theorem decodesSafely_masked :
    DecodesSafely ⟨[0x82, 0x84, 1, 2, 3, 4, 0, 0, 0, 0], by decide⟩ :=
  (decodesSafely_iff _ 6 (by decide) (by decide)).mpr (by decide)

/-- A masked frame without payload ends at its key: the decoder reads behind its bytes. -/
theorem not_decodesSafely :
    WebSocketProtocolHead.decodeDataSize [0x82, 0x80, 1, 2] WebSocketProtocolHeadEx.size =
        .ok 2 ∧
      ¬ DecodesSafely ⟨[0x82, 0x80, 1, 2, 3, 4], by decide⟩ := by
  refine ⟨by decide, fun safe => ?_⟩
  have outside : WebSocketProtocolHead.decode ⟨[0x82, 0x80, 1, 2, 3, 4], by decide⟩ = .fault := by
    decide
  exact safe.head outside

end Cube.Eco.Net
