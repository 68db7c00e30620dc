import Cube.Lib.Drain
import Cube.Eco.Net.Protocol

/-! # The receive loop of a peer

`TcpPeer.cpp` reads a head of a fixed size, asks the protocol head how many bytes follow,
copies the head into the buffer of the message, reads the rest into it, hands it on and
starts over. The stream is what the connection delivers.
-/

namespace Cube.Eco.Net

/-- Why a peer stops receiving: it closes on a head it rejects, and nothing is known of a
peer past the defined behaviour. -/
inductive RecvStop where
  | closed (e : Error)
  | undefined
  deriving DecidableEq, Repr

namespace TcpPeer

/-- `on_read_head`: the buffer with the head in it, and the data size the head announces. -/
def onReadHead (head : ProtocolHead) (dataHead : List UInt8) :
    Outcome Error (EcoString × UInt32) := do
  let dataSize ← head.decodeDataSize dataHead head.size
  let data ← EcoString.empty.resize (head.size + dataSize)
  let data ← data.copyTo 0 (strncpy dataHead head.size.toNat)
  return (data, dataSize)

/-- `async_read_data` and `on_read_data`: an empty message is handed on at once, any other
when all of its data has arrived. -/
def readData (head : ProtocolHead) (data : EcoString) (dataSize : UInt32)
    (arrived : List UInt8) : Outcome Error (Drain.Step RecvStop EcoString) :=
  if dataSize = 0 then .ok (.item data)
  else
    let left := (data.size - head.size).toNat
    if arrived.length < left then .ok .more
    else do
      let data ← data.copyTo head.size.toNat (arrived.take left)
      return .item data

def settle : Outcome Error (Drain.Step RecvStop EcoString) → Drain.Step RecvStop EcoString
  | .ok step => step
  | .reject e => .stop (.closed e)
  | .fault => .stop .undefined

/-- One turn of the loop. -/
def readOnce (head : ProtocolHead) (stream : List UInt8) : Drain.Step RecvStop EcoString :=
  if stream.length < head.size.toNat then .more
  else settle do
    let (data, dataSize) ← onReadHead head (stream.take head.size.toNat)
    readData head data dataSize (stream.drop head.size.toNat)

/-- The loop: the messages handed to `on_read`, and how it ends. -/
def receive (head : ProtocolHead) (stream : List UInt8) :
    List EcoString × Drain.Ending RecvStop UInt8 :=
  Drain.drain (readOnce head) (fun data => data.content.length) (stream.length + 1) stream

/-! ## One turn -/

/-- What `on_read_head` leaves to be filled. -/
theorem onReadHead_eq_ok {head : ProtocolHead} {dataHead : List UInt8} {data : EcoString}
    {dataSize : UInt32} :
    onReadHead head dataHead = .ok (data, dataSize) ↔
      head.decodeDataSize dataHead head.size = .ok dataSize ∧
        head.size.toNat + dataSize.toNat ≤ maxStringSize ∧
        data.content = strncpy dataHead head.size.toNat ++
          List.replicate dataSize.toNat 0 := by
  have headBound := head.size.toNat_lt
  have dataBound := dataSize.toNat_lt
  have wrapped := UInt32.toNat_add head.size dataSize
  have room : (strncpy dataHead head.size.toNat).length = head.size.toNat := length_strncpy _ _
  constructor
  · intro made
    obtain ⟨announced, decoded, made⟩ := Outcome.bind_eq_ok.mp made
    obtain ⟨fresh, resized, made⟩ := Outcome.bind_eq_ok.mp made
    obtain ⟨filled, copied, same⟩ := Outcome.bind_eq_ok.mp made
    cases same
    obtain ⟨small, zeros⟩ := EcoString.resize_empty.mp resized
    obtain ⟨inside, content⟩ := EcoString.copyTo_eq_ok.mp copied
    rw [zeros, room, List.length_replicate, Nat.zero_add] at inside
    rw [maxStringSize] at small ⊢
    refine ⟨decoded, by omega, ?_⟩
    have left : (head.size + dataSize).toNat - head.size.toNat = dataSize.toNat := by omega
    rw [content, zeros, room, List.take_zero, List.nil_append, Nat.zero_add,
      List.drop_replicate, left]
  · rintro ⟨decoded, small, content⟩
    have below : head.size.toNat + dataSize.toNat ≤ 2 ^ 32 - 2 := small
    have exact_sum : (head.size + dataSize).toNat = head.size.toNat + dataSize.toNat := by omega
    have fits : (List.replicate (head.size + dataSize).toNat (0 : UInt8)).length ≤
        maxStringSize := by
      rw [List.length_replicate, exact_sum]
      exact small
    have resized : (EcoString.empty.resize (head.size + dataSize) : Outcome Error EcoString) =
        .ok ⟨_, fits⟩ := EcoString.resize_empty.mpr ⟨by rw [exact_sum]; exact small, rfl⟩
    refine Outcome.bind_eq_ok.mpr ⟨dataSize, decoded, Outcome.bind_eq_ok.mpr ⟨_, resized,
      Outcome.bind_eq_ok.mpr ⟨data, EcoString.copyTo_eq_ok.mpr ⟨?_, ?_⟩, rfl⟩⟩⟩
    · rw [room, List.length_replicate]
      omega
    · have left : (head.size + dataSize).toNat - head.size.toNat = dataSize.toNat := by omega
      rw [content, room, List.take_zero, List.nil_append, Nat.zero_add, List.drop_replicate, left]

/-- Reading the data fills the buffer after its head. -/
theorem readData_eq_item {head : ProtocolHead} {fresh data : EcoString} {dataSize : UInt32}
    {front arrived : List UInt8} (headed : front.length = head.size.toNat)
    (content : fresh.content = front ++ List.replicate dataSize.toNat 0) :
    readData head fresh dataSize arrived = .ok (.item data) ↔
      dataSize.toNat ≤ arrived.length ∧
        data.content = front ++ arrived.take dataSize.toNat := by
  have length := congrArg List.length content
  rw [List.length_append, List.length_replicate, headed] at length
  unfold readData
  split
  next empty =>
    subst empty
    rw [UInt32.toNat_zero, List.replicate_zero, List.append_nil] at content
    simp only [UInt32.toNat_zero, Nat.zero_le, true_and, List.take_zero, List.append_nil,
      Outcome.ok.injEq, Drain.Step.item.injEq]
    exact ⟨fun same => same ▸ content, fun same => EcoString.ext (content.trans same.symm)⟩
  next =>
    have left : (fresh.size - head.size).toNat = dataSize.toNat := by
      have fits := fresh.fits
      rw [UInt32.toNat_sub, EcoString.size_toNat]
      rw [maxStringSize] at fits
      omega
    simp only [left]
    split
    next short =>
      constructor
      · rintro ⟨⟩
      · rintro ⟨enough, _⟩
        exact (Nat.not_le_of_gt short enough).elim
    next enough =>
      have taken : (arrived.take dataSize.toNat).length = dataSize.toNat :=
        List.length_take_of_le (Nat.le_of_not_lt enough)
      have filled : fresh.content.take head.size.toNat ++ arrived.take dataSize.toNat ++
          fresh.content.drop (head.size.toNat + dataSize.toNat) =
            front ++ arrived.take dataSize.toNat := by
        rw [← length, List.drop_length, List.append_nil, content, ← headed, List.take_left]
      rw [Outcome.bind_eq_ok, and_iff_right (Nat.le_of_not_lt enough)]
      constructor
      · rintro ⟨copied, inside, same⟩
        cases same
        obtain ⟨_, held⟩ := EcoString.copyTo_eq_ok.mp inside
        rw [held, taken, filled]
      · intro held
        refine ⟨data, EcoString.copyTo_eq_ok.mpr ⟨?_, ?_⟩, rfl⟩
        · rw [taken, length]
        · rw [taken, filled, held]

theorem settle_eq_item {outcome : Outcome Error (Drain.Step RecvStop EcoString)}
    {data : EcoString} : settle outcome = .item data ↔ outcome = .ok (.item data) := by
  cases outcome with
  | ok step => exact ⟨congrArg Outcome.ok, Outcome.ok.inj⟩
  | reject e => exact ⟨nofun, nofun⟩
  | fault => exact ⟨nofun, nofun⟩

/-- **One turn of the loop.** A message is handed on when the head announces its size and
all of it has arrived; its head has been copied as text, its data as it came. -/
theorem readOnce_eq_item {head : ProtocolHead} {stream : List UInt8} {data : EcoString} :
    readOnce head stream = .item data ↔
      head.size.toNat ≤ stream.length ∧ ∃ dataSize,
        head.decodeDataSize (stream.take head.size.toNat) head.size = .ok dataSize ∧
        dataSize.toNat ≤ (stream.drop head.size.toNat).length ∧
        data.content = strncpy (stream.take head.size.toNat) head.size.toNat ++
          (stream.drop head.size.toNat).take dataSize.toNat := by
  unfold readOnce
  split
  next short =>
    constructor
    · nofun
    · rintro ⟨enough, _⟩
      exact (Nat.not_le_of_gt short enough).elim
  next enough =>
    rw [settle_eq_item, and_iff_right (Nat.le_of_not_lt enough), Outcome.bind_eq_ok]
    constructor
    · rintro ⟨⟨fresh, dataSize⟩, made, filled⟩
      obtain ⟨decoded, _, content⟩ := onReadHead_eq_ok.mp made
      exact ⟨dataSize, decoded, (readData_eq_item (length_strncpy _ _) content).mp filled⟩
    · rintro ⟨dataSize, decoded, arrived, content⟩
      have small : head.size.toNat + dataSize.toNat ≤ maxStringSize := by
        have fits := data.fits
        rwa [content, List.length_append, length_strncpy, List.length_take_of_le arrived] at fits
      have fits : (strncpy (stream.take head.size.toNat) head.size.toNat ++
          List.replicate dataSize.toNat 0).length ≤ maxStringSize := by
        rwa [List.length_append, length_strncpy, List.length_replicate]
      exact ⟨(⟨_, fits⟩, dataSize), onReadHead_eq_ok.mpr ⟨decoded, small, rfl⟩,
        (readData_eq_item (length_strncpy _ _) rfl).mpr ⟨arrived, content⟩⟩

/-- The size of a message handed on is the size its head announces. -/
theorem length_of_readOnce {head : ProtocolHead} {stream : List UInt8} {data : EcoString}
    (found : readOnce head stream = .item data) :
    ∃ dataSize, head.decodeDataSize (stream.take head.size.toNat) head.size = .ok dataSize ∧
      data.content.length = head.size.toNat + dataSize.toNat ∧
      data.content.length ≤ stream.length := by
  obtain ⟨enough, dataSize, decoded, arrived, content⟩ := readOnce_eq_item.mp found
  have length := congrArg List.length content
  rw [List.length_append, length_strncpy, List.length_take_of_le arrived] at length
  rw [List.length_drop] at arrived
  exact ⟨dataSize, decoded, length, by omega⟩

/-- A frame whose head announces the size of its data is taken whole. -/
theorem readOnce_frame (head : ProtocolHead) {front back : List UInt8} {dataSize : UInt32}
    (headed : front.length = head.size.toNat)
    (decoded : head.decodeDataSize front head.size = .ok dataSize)
    (whole : dataSize.toNat = back.length) (fits : (front ++ back).length ≤ maxStringSize)
    (rest : List UInt8) :
    ∃ data, readOnce head (front ++ back ++ rest) = .item data ∧
      data.content = strncpy front front.length ++ back := by
  have same : (strncpy front front.length ++ back).length ≤ maxStringSize := by
    rwa [List.length_append, length_strncpy, ← List.length_append]
  have first : (front ++ back ++ rest).take head.size.toNat = front := by
    rw [← headed, List.append_assoc, List.take_left]
  have others : (front ++ back ++ rest).drop head.size.toNat = back ++ rest := by
    rw [← headed, List.append_assoc, List.drop_left]
  refine ⟨⟨_, same⟩, readOnce_eq_item.mpr ⟨?_, dataSize, ?_, ?_, ?_⟩, rfl⟩
  · rw [← headed, List.append_assoc, List.length_append]
    exact Nat.le_add_right _ _
  · rw [first, decoded]
  · rw [others, whole, List.length_append]
    exact Nat.le_add_right _ _
  · rw [first, others, whole, List.take_left, ← headed]

/-- The size of the message taken from a frame is announced by the head of the frame. -/
theorem announced_of_readOnce {head : ProtocolHead} {front back rest : List UInt8}
    {data : EcoString} (headed : front.length = head.size.toNat)
    (found : readOnce head (front ++ back ++ rest) = .item data)
    (whole : data.content.length = (front ++ back).length) :
    ∃ dataSize, head.decodeDataSize front head.size = .ok dataSize ∧
      dataSize.toNat = back.length := by
  obtain ⟨dataSize, decoded, length, _⟩ := length_of_readOnce found
  have first : (front ++ back ++ rest).take head.size.toNat = front := by
    rw [← headed, List.append_assoc, List.take_left]
  rw [first] at decoded
  rw [whole, List.length_append, headed] at length
  exact ⟨dataSize, decoded, (Nat.add_left_cancel length).symm⟩

/-- **A frame is handed on as it was sent** exactly when its head announces its size and
survives being copied as text. -/
theorem readOnce_kept_iff (head : ProtocolHead) {front back : List UInt8}
    (headed : front.length = head.size.toNat) (fits : (front ++ back).length ≤ maxStringSize)
    (rest : List UInt8) :
    (∃ data, readOnce head (front ++ back ++ rest) = .item data ∧ data.content = front ++ back) ↔
      (∃ dataSize, head.decodeDataSize front head.size = .ok dataSize ∧
        dataSize.toNat = back.length) ∧ ZerosLast front := by
  constructor
  · intro kept
    rcases kept with ⟨data, found, same⟩
    obtain ⟨dataSize, decoded, whole⟩ :=
      announced_of_readOnce headed found (congrArg List.length same)
    obtain ⟨copied, again, content⟩ := readOnce_frame head headed decoded whole fits rest
    cases found.symm.trans again
    refine ⟨⟨dataSize, decoded, whole⟩, (strncpy_length_iff front).mp ?_⟩
    exact List.append_cancel_right (content.symm.trans same)
  · intro good
    rcases good with ⟨⟨dataSize, decoded, whole⟩, last⟩
    obtain ⟨data, found, content⟩ := readOnce_frame head headed decoded whole fits rest
    rw [(strncpy_length_iff front).mpr last] at content
    exact ⟨data, found, content⟩

/-! ## Whole streams -/

section Receive

variable {head : ProtocolHead} {γ : Type} {encode : γ → List UInt8}

private theorem readOnce_nil (headed : 0 < head.size.toNat) : readOnce head [] = .more :=
  if_pos headed

private theorem length_lt_flatten (nonempty : ∀ sent, encode sent ≠ []) (frames : List γ) :
    frames.length < (frames.map encode).flatten.length + 1 := by
  induction frames with
  | nil => exact Nat.succ_pos _
  | cons sent later ih =>
      have positive := List.length_pos_iff.mpr (nonempty sent)
      rw [List.map_cons, List.flatten_cons, List.length_append, List.length_cons]
      omega

/-- **Frames are received one by one** exactly when one turn of the loop takes each of them,
whatever follows it. -/
theorem receive_flatten (headed : 0 < head.size.toNat) (nonempty : ∀ sent, encode sent ≠ [])
    {answers : γ → EcoString → Prop} {good : γ → Prop}
    (sized : ∀ sent data, answers sent data → data.content.length = (encode sent).length)
    (found : ∀ sent rest, (∃ data, readOnce head (encode sent ++ rest) = .item data ∧
      answers sent data) ↔ good sent) (frames : List γ) :
    List.Forall₂ answers frames (receive head (frames.map encode).flatten).1 ↔
      ∀ sent ∈ frames, good sent := by
  rw [← Drain.foundAtBoundaries_iff found]
  exact Drain.drain_flatten (readOnce_nil headed) sized frames
    (length_lt_flatten nonempty frames)

end Receive

end TcpPeer

end Cube.Eco.Net
